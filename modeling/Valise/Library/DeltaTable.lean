import Valise.Library.SortedTable

/-!
Tables stored as a sequence of deltas, each holding the rows that changed since the one before it:
what is still dirty, what a new delta has to hold, and three ways to fold the deltas back.
-/

namespace DeltaTables

open SortedTables

variable {ρ κ : Type} [LinearOrder κ] (key : ρ → κ)

/-- Ids form a set, kept in order. -/
def markDirty (wanted : κ) (dirty : List κ) : List κ := upsert (fun id : κ => id) wanted dirty

def dirtyRecords (table : List ρ) (dirty : List κ) : List ρ :=
  dirty.filterMap fun id => find key id table

/-- Replay the deltas oldest first, a later row replacing an earlier one. -/
def replay (deltas : List (List ρ)) : List ρ := upsertAll key [] deltas.flatten

theorem mem_markDirty {wanted other : κ} {dirty : List κ} :
    other ∈ markDirty wanted dirty ↔ other = wanted ∨ other ∈ dirty :=
  mem_upsert_iff _ Function.injective_id

theorem mem_upsertAll_ids {wanted : κ} {ids dirty : List κ} :
    wanted ∈ upsertAll (fun id : κ => id) dirty ids ↔ wanted ∈ ids ∨ wanted ∈ dirty :=
  mem_upsertAll_iff _ Function.injective_id

/-- Away from the dirty ids, the deltas replay to the table; the dirty ids are in the table. -/
structure Tracks (deltas : List (List ρ)) (table : List ρ) (dirty : List κ) : Prop where
  ascending : Ascending key table
  ordered : Ascending (fun id : κ => id) dirty
  distinct : ∀ delta ∈ deltas, (delta.map key).Nodup
  agrees : ∀ id, id ∉ dirty → find key id (replay key deltas) = find key id table
  present : ∀ id ∈ dirty, ∃ row, find key id table = some row

theorem replay_ascending (deltas : List (List ρ)) : Ascending key (replay key deltas) :=
  upsertAll_ascending key (ascending_nil key) _

theorem replay_append (deltas : List (List ρ)) (delta : List ρ) :
    replay key (deltas ++ [delta]) = upsertAll key (replay key deltas) delta := by
  simp only [replay, List.flatten_append, List.flatten_singleton, upsertAll_append]

theorem tracks_empty : Tracks key [] [] [] where
  ascending := ascending_nil key
  ordered := ascending_nil _
  distinct := by simp
  agrees _ _ := rfl
  present := by simp

variable {key}

theorem Ascending.nodup_ids {ids : List κ} (ordered : Ascending (fun id : κ => id) ids) :
    ids.Nodup :=
  ordered.imp fun before => ne_of_lt before

namespace Tracks

variable {deltas : List (List ρ)} {table : List ρ} {dirty : List κ}

theorem upsert (tracks : Tracks key deltas table dirty) (row : ρ) :
    Tracks key deltas (upsert key row table) (markDirty (key row) dirty) where
  ascending := upsert_ascending key tracks.ascending row
  ordered := upsert_ascending _ tracks.ordered _
  distinct := tracks.distinct
  agrees id clean := by
    have other : key row ≠ id := fun same => clean (mem_markDirty.mpr (.inl same.symm))
    have before : id ∉ dirty := fun inside => clean (mem_markDirty.mpr (.inr inside))
    rw [find_upsert_other key other]
    exact tracks.agrees id before
  present id inside := by
    rw [find_upsert]
    split
    · exact ⟨row, rfl⟩
    · rename_i other
      rcases mem_markDirty.mp inside with new | old
      · exact absurd new.symm other
      · exact tracks.present id old

/-- Rows rewritten in place stay tracked when every rewritten one is marked. -/
theorem rewrite (tracks : Tracks key deltas table dirty) {change : ρ → ρ} {marked : List κ}
    (keeps : ∀ row, key (change row) = key row)
    (marks : ∀ row ∈ table, change row ≠ row → key row ∈ marked)
    (known : ∀ id ∈ marked, ∃ row, find key id table = some row) :
    Tracks key deltas (table.map change) (upsertAll (fun id : κ => id) dirty marked) where
  ascending := List.pairwise_map.mpr (tracks.ascending.imp fun before => by rwa [keeps, keeps])
  ordered := upsertAll_ascending _ tracks.ordered _
  distinct := tracks.distinct
  agrees id clean := by
    rw [find_map key keeps]
    have before : id ∉ dirty := fun inside => clean (mem_upsertAll_ids.mpr (.inr inside))
    rw [tracks.agrees id before]
    rcases held : find key id table with _ | row
    · rfl
    · obtain ⟨member, hit⟩ := find_some key held
      by_cases same : change row = row
      · simp [same]
      · have inside := marks row member same
        rw [hit] at inside
        exact absurd (mem_upsertAll_ids.mpr (.inl inside)) clean
  present id inside := by
    rw [find_map key keeps]
    obtain ⟨row, held⟩ : ∃ row, find key id table = some row := by
      rcases mem_upsertAll_ids.mp inside with new | old
      · exact known id new
      · exact tracks.present id old
    exact ⟨change row, by rw [held]; rfl⟩

theorem dirtyRecords_keys (tracks : Tracks key deltas table dirty) :
    (dirtyRecords key table dirty).map key = dirty := by
  have all : ∀ ids : List κ, (∀ id ∈ ids, ∃ row, find key id table = some row) →
      (dirtyRecords key table ids).map key = ids := by
    intro ids present
    induction ids with
    | nil => rfl
    | cons id ids ih =>
        obtain ⟨row, held⟩ := present id List.mem_cons_self
        have rest := ih fun other member => present other (List.mem_cons_of_mem _ member)
        have hit := (find_some key held).2
        rw [dirtyRecords] at rest ⊢
        rw [List.filterMap_cons, held, List.map_cons, rest, hit]
  exact all dirty tracks.present

theorem dirtyRecords_nodup (tracks : Tracks key deltas table dirty) :
    ((dirtyRecords key table dirty).map key).Nodup := by
  rw [tracks.dirtyRecords_keys]
  exact Ascending.nodup_ids tracks.ordered

theorem find_dirtyRecords (tracks : Tracks key deltas table dirty) (id : κ) :
    find key id (dirtyRecords key table dirty).reverse =
      if id ∈ dirty then find key id table else none := by
  by_cases inside : id ∈ dirty
  · rw [if_pos inside]
    obtain ⟨row, held⟩ := tracks.present id inside
    have hit := (find_some key held).2
    have member : row ∈ dirtyRecords key table dirty :=
      List.mem_filterMap.mpr ⟨id, inside, held⟩
    rcases found : find key id (dirtyRecords key table dirty).reverse with _ | other
    · exact absurd hit (find_none key |>.mp found row (List.mem_reverse.mpr member))
    · obtain ⟨otherMember, otherHit⟩ := find_some key found
      have same := List.inj_on_of_nodup_map tracks.dirtyRecords_nodup
        (List.mem_reverse.mp otherMember) member (otherHit.trans hit.symm)
      rw [same, held]
  · rw [if_neg inside, find_none]
    intro row member hit
    have key_mem : key row ∈ (dirtyRecords key table dirty).map key :=
      List.mem_map_of_mem (List.mem_reverse.mp member)
    rw [tracks.dirtyRecords_keys, hit] at key_mem
    exact inside key_mem

/-- Writing the dirty rows as a new delta leaves nothing dirty. -/
theorem flush (tracks : Tracks key deltas table dirty) :
    Tracks key (deltas ++ [dirtyRecords key table dirty]) table [] where
  ascending := tracks.ascending
  ordered := ascending_nil _
  distinct delta member := by
    rcases List.mem_append.mp member with old | new
    · exact tracks.distinct delta old
    · rw [List.mem_singleton.mp new]
      exact tracks.dirtyRecords_nodup
  agrees id _ := by
    rw [replay_append, find_upsertAll, tracks.find_dirtyRecords]
    by_cases inside : id ∈ dirty
    · obtain ⟨row, held⟩ := tracks.present id inside
      simp [inside, held]
    · simp only [inside, if_false, Option.none_or]
      exact tracks.agrees id inside
  present := by simp

theorem replay_eq (tracks : Tracks key deltas table []) : replay key deltas = table :=
  eq_of_find key (replay_ascending key deltas) tracks.ascending
    fun id => tracks.agrees id (by simp)

end Tracks

/-! ### Other ways to fold the deltas -/

variable (key)

/-- Keep the row that is already there. -/
def orInsert (row : ρ) (table : List ρ) : List ρ :=
  if find key (key row) table = none then SortedTables.upsert key row table else table

/-- Newest delta first; an older row does not replace a newer one. -/
def replayNewestFirst : List (List ρ) → List ρ
  | [] => []
  | newest :: older =>
      older.foldl (fun table delta => delta.foldl (fun table row => orInsert key row table) table)
        (upsertAll key [] newest)

variable {key}

theorem find_orInsert (row : ρ) (wanted : κ) (table : List ρ) :
    find key wanted (orInsert key row table) =
      (find key wanted table).or (if key row = wanted then some row else none) := by
  unfold orInsert
  by_cases fresh : find key (key row) table = none
  · rw [if_pos fresh, find_upsert]
    by_cases hit : key row = wanted
    · rw [← hit, fresh]
      simp
    · simp [hit]
  · rw [if_neg fresh]
    by_cases hit : key row = wanted
    · rw [← hit]
      rcases held : find key (key row) table with _ | old
      · exact absurd held fresh
      · simp
    · simp [hit]

theorem find_orInsertAll (rows : List ρ) (wanted : κ) (table : List ρ) :
    find key wanted (rows.foldl (fun table row => orInsert key row table) table) =
      (find key wanted table).or (find key wanted rows) := by
  induction rows generalizing table with
  | nil => simp
  | cons row rows ih =>
      rw [List.foldl_cons, ih, find_orInsert, Option.or_assoc]
      congr 1
      simp only [find]
      split <;> rfl

theorem orInsertAll_ascending (rows : List ρ) {table : List ρ} (ascending : Ascending key table) :
    Ascending key (rows.foldl (fun table row => orInsert key row table) table) := by
  induction rows generalizing table with
  | nil => exact ascending
  | cons row rows ih =>
      rw [List.foldl_cons]
      apply ih
      unfold orInsert
      split
      · exact upsert_ascending key ascending row
      · exact ascending

/-- In a delta of distinct ids, the order of the rows does not matter to a lookup. -/
theorem find_reverse {rows : List ρ} (distinct : (rows.map key).Nodup) (wanted : κ) :
    find key wanted rows.reverse = find key wanted rows := by
  rcases held : find key wanted rows with _ | row
  · rw [find_none] at held ⊢
    exact fun row member => held row (List.mem_reverse.mp member)
  · obtain ⟨member, hit⟩ := find_some key held
    rcases found : find key wanted rows.reverse with _ | other
    · exact absurd hit ((find_none key).mp found row (List.mem_reverse.mpr member))
    · obtain ⟨otherMember, otherHit⟩ := find_some key found
      rw [List.inj_on_of_nodup_map distinct (List.mem_reverse.mp otherMember) member
        (otherHit.trans hit.symm)]

theorem find_replay {deltas : List (List ρ)}
    (distinct : ∀ delta ∈ deltas, (delta.map key).Nodup) (wanted : κ) :
    find key wanted (replay key deltas) = find key wanted deltas.reverse.flatten := by
  induction deltas using List.reverseRecOn with
  | nil => rfl
  | append_singleton deltas delta ih =>
      rw [replay_append, find_upsertAll, List.reverse_append, List.reverse_singleton,
        List.singleton_append, List.flatten_cons, find_append,
        find_reverse (distinct delta (by simp)),
        ih fun other member => distinct other (List.mem_append_left _ member)]

theorem replayNewestFirst_ascending (newestFirst : List (List ρ)) :
    Ascending key (replayNewestFirst key newestFirst) := by
  cases newestFirst with
  | nil => exact ascending_nil key
  | cons newest older =>
      have folded : ∀ (older : List (List ρ)) (table : List ρ), Ascending key table →
          Ascending key (older.foldl (fun table delta =>
            delta.foldl (fun table row => orInsert key row table) table) table) := by
        intro older
        induction older with
        | nil => exact fun _ ascending => ascending
        | cons delta older ih =>
            exact fun table ascending => ih _ (orInsertAll_ascending delta ascending)
      exact folded older _ (upsertAll_ascending key (ascending_nil key) newest)

theorem replayNewestFirst_eq {deltas : List (List ρ)}
    (distinct : ∀ delta ∈ deltas, (delta.map key).Nodup) :
    replayNewestFirst key deltas.reverse = replay key deltas := by
  have finds : ∀ newestFirst : List (List ρ), (∀ delta ∈ newestFirst, (delta.map key).Nodup) →
      ∀ wanted, find key wanted (replayNewestFirst key newestFirst) =
        find key wanted newestFirst.flatten := by
    intro newestFirst distinct wanted
    cases newestFirst with
    | nil => rfl
    | cons newest older =>
        have folded : ∀ (older : List (List ρ)) (table : List ρ),
            find key wanted (older.foldl (fun table delta =>
              delta.foldl (fun table row => orInsert key row table) table) table) =
              (find key wanted table).or (find key wanted older.flatten) := by
          intro older
          induction older with
          | nil => simp
          | cons delta older ih =>
              intro table
              rw [List.foldl_cons, ih, find_orInsertAll, List.flatten_cons, find_append,
                Option.or_assoc]
        rw [replayNewestFirst, folded, find_upsertAll, find_reverse (distinct _ (by simp)),
          List.flatten_cons, find_append]
        simp
  refine eq_of_find key (replayNewestFirst_ascending _) (replay_ascending key deltas) fun wanted => ?_
  rw [finds _ (fun delta member => distinct delta (List.mem_reverse.mp member)),
    find_replay distinct]

/-- One delta only: sorting it is replaying it. -/
theorem replay_single {delta : List ρ} (distinct : (delta.map key).Nodup) :
    replay key [delta] = delta.insertionSort fun first second => key first ≤ key second := by
  have flat : replay key [delta] = upsertAll key [] delta := by
    simp [replay]
  rw [flat, upsertAll_eq_sort key distinct]

end DeltaTables
