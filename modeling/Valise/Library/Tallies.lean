import Valise.Library.SortedTable

/-!
Sums that are kept under keys, whatever order they are added up in, and the first items of a list
under each key.
-/

namespace Tallies

open SortedTables

/-- Some order in which a collection without an order of its own is gone through. -/
structure Iteration where
  run : {β : Type} → List β → List β
  perm : ∀ {β : Type} (items : List β), (run items).Perm items

def Iteration.forward : Iteration where
  run items := items
  perm := List.Perm.refl

def Iteration.backward : Iteration where
  run items := items.reverse
  perm := List.reverse_perm

/-! ### Maps as sorted tables -/

section Maps

variable {α κ V : Type} [LinearOrder κ] (rank : α → κ)

abbrev RankOrdered (map : List (α × V)) : Prop := Ascending (fun entry => rank entry.1) map

variable {rank} {map : List (α × V)}

theorem eq_of_valueAt (injective : Function.Injective rank) {first second : List (α × V)}
    (firstRanked : RankOrdered rank first) (secondRanked : RankOrdered rank second)
    (alike : ∀ wanted, valueAt rank wanted first = valueAt rank wanted second) :
    first = second := by
  have distinct {table : List (α × V)} (ranked : RankOrdered rank table) : table.Nodup :=
    ranked.imp fun before same => absurd (same ▸ before) (lt_irrefl _)
  refine List.Perm.eq_of_pairwise (fun a b _ _ ab ba => absurd ab (lt_asymm ba)) firstRanked
    secondRanked ?_
  refine (List.perm_ext_iff_of_nodup (distinct firstRanked) (distinct secondRanked)).mpr ?_
  rintro ⟨index, value⟩
  rw [← valueAt_eq_some rank injective firstRanked, alike,
    valueAt_eq_some rank injective secondRanked]

theorem store_ranked (ranked : RankOrdered rank map) (index : α) (value : V) :
    RankOrdered rank (store rank index value map) := upsert_ascending _ ranked _

theorem mem_keys (injective : Function.Injective rank) (ranked : RankOrdered rank map) {index : α} :
    index ∈ map.map Prod.fst ↔ (valueAt rank index map).isSome := by
  rw [Option.isSome_iff_exists, List.mem_map]
  constructor
  · rintro ⟨⟨index, value⟩, member, rfl⟩
    exact ⟨value, (valueAt_eq_some rank injective ranked).mpr member⟩
  · rintro ⟨value, found⟩
    exact ⟨(index, value), (valueAt_eq_some rank injective ranked).mp found, rfl⟩

variable [DecidableEq α]

/-- The items are stored one after the other, so the last one of a key stays. -/
theorem valueAt_storeAll (injective : Function.Injective rank) (items : List (α × V))
    (map : List (α × V)) (wanted : α) :
    valueAt rank wanted (items.foldl (fun map item => store rank item.1 item.2 map) map) =
      ((items.reverse.find? (·.1 = wanted)).map Prod.snd).or (valueAt rank wanted map) := by
  induction items generalizing map with
  | nil => rfl
  | cons item rest ih =>
      rw [List.foldl_cons, ih, valueAt_store rank injective, List.reverse_cons, List.find?_append]
      cases found : rest.reverse.find? (·.1 = wanted) with
      | some later => rfl
      | none =>
          by_cases here : item.1 = wanted
          · simp [here]
          · simp [here]

omit [DecidableEq α] in
theorem storeAll_ranked (items : List (α × V)) (ranked : RankOrdered rank map) :
    RankOrdered rank (items.foldl (fun map item => store rank item.1 item.2 map) map) := by
  induction items generalizing map with
  | nil => exact ranked
  | cons item rest ih => exact ih (store_ranked ranked item.1 item.2)

end Maps

/-! ### Sums -/

section Sums

variable {α κ K : Type} [LinearOrder κ] [DecidableEq α] [AddCommMonoid K] (rank : α → κ)

/-- Add to what is held under the key, or to zero. -/
def add (index : α) (delta : K) (map : List (α × K)) : List (α × K) :=
  store rank index ((valueAt rank index map).getD 0 + delta) map

def addAll (items : List (α × K)) (map : List (α × K)) : List (α × K) :=
  items.foldl (fun map item => add rank item.1 item.2 map) map

def sumOf (wanted : α) (items : List (α × K)) : K :=
  ((items.filter (·.1 = wanted)).map Prod.snd).sum

def total (map : List (α × K)) : K := (map.map Prod.snd).sum

variable {rank} {map : List (α × K)}

theorem valueAt_add (injective : Function.Injective rank) (index : α) (delta : K)
    (map : List (α × K)) (wanted : α) : valueAt rank wanted (add rank index delta map) =
      if index = wanted then some ((valueAt rank index map).getD 0 + delta)
      else valueAt rank wanted map := valueAt_store rank injective ..

omit [DecidableEq α] in
theorem add_ranked (ranked : RankOrdered rank map) (index : α) (delta : K) :
    RankOrdered rank (add rank index delta map) := store_ranked ranked _ _

omit [DecidableEq α] in
theorem addAll_ranked (items : List (α × K)) (ranked : RankOrdered rank map) :
    RankOrdered rank (addAll rank items map) := by
  induction items generalizing map with
  | nil => exact ranked
  | cons item rest ih => exact ih (add_ranked ranked _ _)

/-- What was held and what was added under a key. -/
theorem valueAt_addAll (injective : Function.Injective rank) (items : List (α × K))
    (map : List (α × K)) (wanted : α) : valueAt rank wanted (addAll rank items map) =
      if wanted ∈ items.map Prod.fst then
        some ((valueAt rank wanted map).getD 0 + sumOf wanted items)
      else valueAt rank wanted map := by
  induction items generalizing map with
  | nil => rfl
  | cons item rest ih =>
      have unfolded : addAll rank (item :: rest) map =
          addAll rank rest (add rank item.1 item.2 map) := rfl
      rw [unfolded, ih, valueAt_add injective]
      unfold sumOf
      by_cases here : item.1 = wanted
      · obtain rfl := here
        simp only [if_true, List.map_cons, List.mem_cons, true_or, Option.getD_some]
        rw [List.filter_cons_of_pos (by simp), List.map_cons, List.sum_cons, add_assoc]
        split
        · rfl
        · rename_i absent
          have none : rest.filter (·.1 = item.1) = [] := by
            refine List.filter_eq_nil_iff.mpr fun other member same => absent ?_
            exact List.mem_map.mpr ⟨other, member, of_decide_eq_true same⟩
          rw [none, List.map_nil, List.sum_nil, add_zero]
      · have apart : wanted ≠ item.1 := fun same => here same.symm
        rw [if_neg here, List.filter_cons_of_neg (by simp [here]), List.map_cons]
        simp only [List.mem_cons, apart, false_or]

/-- The order in which the items come does not matter. -/
theorem addAll_perm (injective : Function.Injective rank) (ranked : RankOrdered rank map)
    {first second : List (α × K)} (same : first.Perm second) :
    addAll rank first map = addAll rank second map := by
  refine eq_of_valueAt injective (addAll_ranked first ranked) (addAll_ranked second ranked) ?_
  intro wanted
  rw [valueAt_addAll injective, valueAt_addAll injective]
  have sums : sumOf wanted first = sumOf wanted second := ((same.filter _).map _).sum_eq
  simp only [sums, (same.map Prod.fst).mem_iff]

/-- The keys are those that something was added under. -/
theorem mem_addAll_keys (injective : Function.Injective rank) (items : List (α × K)) {wanted : α} :
    wanted ∈ (addAll rank items []).map Prod.fst ↔ wanted ∈ items.map Prod.fst := by
  rw [mem_keys injective (addAll_ranked items (ascending_nil _)), valueAt_addAll injective]
  split
  · rename_i member
    exact iff_of_true rfl member
  · rename_i absent
    exact iff_of_false (by simp) absent

omit [AddCommMonoid K] [DecidableEq α] in
theorem keys_nodup (ranked : RankOrdered rank map) : (map.map Prod.fst).Nodup := by
  refine List.pairwise_map.mpr (ranked.imp ?_)
  intro first second before same
  exact before.ne (congrArg rank same)

theorem sumOf_eq {items : List (α × K)} (distinct : (items.map Prod.fst).Nodup) {wanted : α}
    {value : K} (member : (wanted, value) ∈ items) : sumOf wanted items = value := by
  have only : items.filter (·.1 = wanted) = [(wanted, value)] := by
    induction items with
    | nil => cases member
    | cons item rest ih =>
        obtain ⟨new, tail⟩ := List.nodup_cons.mp distinct
        rcases List.mem_cons.mp member with rfl | later
        · rw [List.filter_cons_of_pos (by simp), List.filter_eq_nil_iff.mpr]
          intro other listed same
          exact new (List.mem_map.mpr ⟨other, listed, of_decide_eq_true same⟩)
        · have apart : item.1 ≠ wanted := fun same =>
            new (same ▸ List.mem_map_of_mem later)
          rw [List.filter_cons_of_neg (by simpa using apart), ih tail later]
  rw [sumOf, only, List.map_singleton, List.sum_singleton]

omit [DecidableEq α] in
theorem total_add (ranked : RankOrdered rank map) (index : α) (delta : K) :
    total (add rank index delta map) = total map + delta := by
  induction map with
  | nil => simp [add, store, upsert, total]
  | cons entry rest ih =>
      obtain ⟨above, tail⟩ := List.pairwise_cons.mp ranked
      unfold add store at ih ⊢
      by_cases before : rank index < rank entry.1
      · have absent : valueAt rank index (entry :: rest) = none := by
          rw [valueAt, Option.map_eq_none_iff, find_none]
          intro other member
          rcases List.mem_cons.mp member with rfl | later
          · exact before.ne'
          · exact (before.trans (above other later)).ne'
        rw [absent, upsert, if_pos before]
        simp only [total, Option.getD_none, zero_add, List.map_cons, List.sum_cons]
        exact add_comm _ _
      · by_cases same : rank index = rank entry.1
        · have held : valueAt rank index (entry :: rest) = some entry.2 := by
            rw [valueAt, find, if_pos same.symm]
            rfl
          rw [held, upsert, if_neg before, if_pos same]
          simp only [total, Option.getD_some, List.map_cons, List.sum_cons]
          exact add_right_comm _ _ _
        · have later : valueAt rank index (entry :: rest) = valueAt rank index rest := by
            rw [valueAt, find, if_neg (Ne.symm same)]
            rfl
          rw [later, upsert, if_neg before, if_neg same]
          have step := ih tail
          simp only [total, List.map_cons, List.sum_cons] at step ⊢
          rw [step, add_assoc]

omit [DecidableEq α] in
theorem total_addAll (ranked : RankOrdered rank map) (items : List (α × K)) :
    total (addAll rank items map) = total map + (items.map Prod.snd).sum := by
  induction items generalizing map with
  | nil => simp [addAll]
  | cons item rest ih =>
      have unfolded : addAll rank (item :: rest) map =
          addAll rank rest (add rank item.1 item.2 map) := rfl
      rw [unfolded, ih (add_ranked ranked _ _), total_add ranked, List.map_cons, List.sum_cons,
        add_assoc]

end Sums

/-! ### First items -/

section Firsts

variable {α β : Type} [DecidableEq α] (key : β → α)

def firsts : List β → List β
  | [] => []
  | item :: rest => item :: (firsts rest).filter (key · ≠ key item)

variable {key} {items : List β}

theorem firsts_sublist (items : List β) : (firsts key items).Sublist items := by
  induction items with
  | nil => exact List.Sublist.refl _
  | cons item rest ih => exact (List.filter_sublist.trans ih).cons_cons item

theorem firsts_nodup (items : List β) : ((firsts key items).map key).Nodup := by
  induction items with
  | nil => exact List.nodup_nil
  | cons item rest ih =>
      refine List.nodup_cons.mpr ⟨?_, (List.filter_sublist.map key).nodup ih⟩
      intro again
      obtain ⟨other, member, same⟩ := List.mem_map.mp again
      exact of_decide_eq_true (List.mem_filter.mp member).2 same

/-- Every item has the first one of its key before it, if it is not that one. -/
theorem exists_first {related : β → β → Prop} (ordered : items.Pairwise related) {item : β}
    (member : item ∈ items) :
    ∃ first ∈ firsts key items, key first = key item ∧ (first = item ∨ related first item) := by
  induction items with
  | nil => cases member
  | cons head rest ih =>
      obtain ⟨ahead, tail⟩ := List.pairwise_cons.mp ordered
      by_cases same : key head = key item
      · refine ⟨head, List.mem_cons_self, same, ?_⟩
        exact (List.mem_cons.mp member).imp Eq.symm (ahead item)
      · have later : item ∈ rest := (List.mem_cons.mp member).resolve_left fun here =>
          same (here ▸ rfl)
        obtain ⟨first, listed, named, before⟩ := ih tail later
        refine ⟨first, List.mem_cons_of_mem _ (List.mem_filter.mpr ⟨listed, ?_⟩), named, before⟩
        exact decide_eq_true fun equal => same (equal.symm.trans named)

omit [DecidableEq α] in
/-- What is found first comes before the others that could be found. -/
theorem related_of_find {related : β → β → Prop} (ordered : items.Pairwise related)
    {fits : β → Bool} {first item : β} (found : items.find? fits = some first)
    (member : item ∈ items) (fit : fits item = true) : first = item ∨ related first item := by
  induction items with
  | nil => cases member
  | cons head rest ih =>
      obtain ⟨ahead, tail⟩ := List.pairwise_cons.mp ordered
      rw [List.find?_cons] at found
      split at found
      · obtain rfl := Option.some.inj found
        exact (List.mem_cons.mp member).imp Eq.symm (ahead item)
      · rename_i misfit
        have later : item ∈ rest := (List.mem_cons.mp member).resolve_left fun here =>
          absurd fit (here ▸ misfit ▸ Bool.false_ne_true)
        exact ih tail found later

omit [DecidableEq α] in
/-- Two items of a list without repetition are in one order only. -/
theorem eq_of_sublists (distinct : items.Nodup) {first second : β}
    (ahead : [first, second].Sublist items) (behind : [second, first].Sublist items) :
    first = second := by
  induction items with
  | nil => cases ahead
  | cons head rest ih =>
      obtain ⟨absent, tail⟩ := List.nodup_cons.mp distinct
      cases ahead with
      | cons _ ahead =>
          cases behind with
          | cons _ behind => exact ih tail ahead behind
          | cons_cons _ _ => exact absurd (ahead.subset (by simp)) absent
      | cons_cons _ later =>
          cases behind with
          | cons _ behind => exact absurd (behind.subset (by simp)) absent
          | cons_cons _ _ => rfl

omit [DecidableEq α] in
theorem sublist_either {first second : β} (apart : first ≠ second) (one : first ∈ items)
    (other : second ∈ items) : [first, second].Sublist items ∨ [second, first].Sublist items := by
  induction items with
  | nil => cases one
  | cons head rest ih =>
      rcases List.mem_cons.mp one with rfl | oneLater
      · have later := (List.mem_cons.mp other).resolve_left (Ne.symm apart)
        exact .inl ((List.singleton_sublist.mpr later).cons_cons _)
      · rcases List.mem_cons.mp other with rfl | otherLater
        · exact .inr ((List.singleton_sublist.mpr oneLater).cons_cons _)
        · exact (ih oneLater otherLater).imp (·.cons _) (·.cons _)

theorem mem_firsts_keys {wanted : α} :
    wanted ∈ (firsts key items).map key ↔ wanted ∈ items.map key := by
  constructor
  · exact fun member => ((firsts_sublist items).map key).subset member
  · intro member
    obtain ⟨item, listed, rfl⟩ := List.mem_map.mp member
    obtain ⟨first, inFirsts, same, _⟩ := @exists_first _ _ _ key items (fun _ _ => True)
      (List.pairwise_of_forall fun _ _ => trivial) item listed
    exact List.mem_map.mpr ⟨first, inFirsts, same⟩

theorem firsts_eq_self (distinct : (items.map key).Nodup) : firsts key items = items := by
  induction items with
  | nil => rfl
  | cons item rest ih =>
      obtain ⟨new, tail⟩ := List.nodup_cons.mp distinct
      rw [firsts, ih tail, List.filter_eq_self.mpr]
      intro other member
      exact decide_eq_true fun same => new (List.mem_map.mpr ⟨other, member, same⟩)

/-- Only a list without a key twice is as long as its first items. -/
theorem nodup_of_length (long : items.length ≤ (firsts key items).length) :
    (items.map key).Nodup := by
  have all := (firsts_sublist items).eq_of_length_le long
  have distinct := @firsts_nodup _ _ _ key items
  rwa [all] at distinct

theorem firsts_filter (keep : α → Bool) (items : List β) :
    (firsts key items).filter (fun item => keep (key item)) =
      firsts key (items.filter fun item => keep (key item)) := by
  induction items with
  | nil => rfl
  | cons item rest ih =>
      have swap : ((firsts key rest).filter (key · ≠ key item)).filter
          (fun item => keep (key item)) = (firsts key (rest.filter fun item => keep (key item))).filter (key · ≠ key item) := by
        rw [← ih, List.filter_filter, List.filter_filter]
        exact List.filter_congr fun other _ => Bool.and_comm _ _
      by_cases kept : keep (key item) = true
      · rw [firsts, List.filter_cons, if_pos kept, List.filter_cons, if_pos kept, firsts, swap]
      · rw [firsts, List.filter_cons, if_neg kept, List.filter_cons, if_neg kept, swap]
        refine List.filter_eq_self.mpr fun other member => decide_eq_true fun same => kept ?_
        have listed := (firsts_sublist _).subset member
        exact same ▸ (List.mem_filter.mp listed).2

end Firsts

end Tallies
