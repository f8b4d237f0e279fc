import Valise.Library.BinarySearch
import Valise.Library.SortedTable

/-!
Rows found, replaced and inserted by binary search. In a table that ascends, this is what a scan of
all the rows does.
-/

namespace SearchedTables

open BinarySearch SortedTables

variable {ρ κ : Type} [LinearOrder κ] (key : ρ → κ)

/-- The place of the row with the key, or else the place where one belongs. -/
def searchByKey (wanted : κ) (rows : List ρ) : Except Nat Nat :=
  let place := narrow (rows.map key) wanted 0 rows.length
  match rows[place]? with
  | none => .error 0
  | some row =>
      if key row = wanted then .ok place
      else if key row < wanted then .error (place + 1) else .error place

def findByKey (wanted : κ) (rows : List ρ) : Option ρ :=
  match searchByKey key wanted rows with
  | .ok place => rows[place]?
  | .error _ => none

def upsertByKey (row : ρ) (rows : List ρ) : List ρ :=
  match searchByKey key (key row) rows with
  | .ok place => rows.set place row
  | .error place => rows.take place ++ row :: rows.drop place

/-- The row with the key is changed where it stands. -/
def modifyByKey (change : ρ → ρ) (wanted : κ) (rows : List ρ) : List ρ :=
  match searchByKey key wanted rows with
  | .ok place => rows.modify place change
  | .error _ => rows

/-- The rows of a set of keys, which are looked up in ascending order. -/
def rowsByKey (rows : List ρ) (wanted : Finset κ) : List ρ :=
  (wanted.sort (· ≤ ·)).filterMap fun wanted => findByKey key wanted rows

/-! ### The search -/

/-- What is at the place is not after the target, and what follows it is. -/
theorem narrow_between {items : List κ} (sorted : items.Pairwise (· ≤ ·)) {target : κ}
    {base size : Nat} (positive : 0 < size) (inside : base + size ≤ items.length)
    (low : base = 0 ∨ ∃ item, items[base]? = some item ∧ item ≤ target)
    (high : ∀ item, items[base + size]? = some item → target < item) :
    narrow items target base size < items.length ∧
      (narrow items target base size = 0 ∨
        ∃ item, items[narrow items target base size]? = some item ∧ item ≤ target) ∧
      ∀ item, items[narrow items target base size + 1]? = some item → target < item := by
  induction size using Nat.strongRecOn generalizing base with
  | ind size ih =>
      rw [narrow]
      split
      · rename_i large
        have middle : items[base + size / 2]? = some items[base + size / 2] :=
          List.getElem?_eq_getElem (by omega)
        generalize items[base + size / 2] = item at middle
        simp only [middle]
        split
        · rename_i past
          refine ih (size - size / 2) (by omega) (by omega) (by omega) low ?_
          intro next stands
          rcases Nat.eq_or_lt_of_le (show base + size / 2 ≤ base + (size - size / 2) by omega)
            with same | later
          · rw [← same, middle] at stands
            exact Option.some.inj stands ▸ past
          · exact past.trans_le (getElem?_le sorted later middle stands)
        · rename_i notPast
          refine ih (size - size / 2) (by omega) (by omega) (by omega)
            (.inr ⟨item, middle, not_lt.mp notPast⟩) ?_
          have same : base + size / 2 + (size - size / 2) = base + size := by omega
          rwa [same]
      · rename_i small
        obtain rfl : size = 1 := by omega
        exact ⟨by omega, low, high⟩

variable {rows : List ρ} {wanted : κ}

theorem Ascending.sorted (ascending : Ascending key rows) :
    (rows.map key).Pairwise (· ≤ ·) :=
  List.pairwise_map.mpr (ascending.imp fun before => before.le)

/-- The rows around a place. -/
theorem split_at {place : Nat} {row : ρ} (stands : rows[place]? = some row) :
    rows = rows.take place ++ row :: rows.drop (place + 1) := by
  obtain ⟨inside, rfl⟩ := List.getElem?_eq_some_iff.mp stands
  rw [List.getElem_cons_drop, List.take_append_drop]

/-- What follows a place is above what the next row is above. -/
theorem above_of_next (ascending : Ascending key rows) {place : Nat}
    (next : ∀ item, (rows.map key)[place + 1]? = some item → wanted < item) :
    ∀ row ∈ rows.drop (place + 1), wanted < key row := by
  cases following : rows.drop (place + 1) with
  | nil => exact nofun
  | cons head rest =>
      have there : rows[place + 1]? = some head := by
        rw [← List.head?_drop, following, List.head?_cons]
      have first : wanted < key head := next (key head) (by rw [List.getElem?_map, there]; rfl)
      have tail : Ascending key (head :: rest) := following ▸ ascending.sublist (List.drop_sublist ..)
      intro row member
      rcases List.mem_cons.mp member with rfl | later
      · exact first
      · exact first.trans ((List.pairwise_cons.mp tail).1 row later)

/-- In an ascending table the search ends at the row with the key, or between the smaller keys and
the larger ones. -/
theorem searchByKey_spec (ascending : Ascending key rows) (wanted : κ) :
    match searchByKey key wanted rows with
    | .ok place => ∃ row, rows[place]? = some row ∧ key row = wanted ∧
        (∀ old ∈ rows.take place, key old < wanted) ∧ ∀ old ∈ rows.drop (place + 1), wanted < key old
    | .error place => (∀ row ∈ rows.take place, key row < wanted) ∧
        ∀ row ∈ rows.drop place, wanted < key row := by
  rcases Nat.eq_zero_or_pos rows.length with empty | positive
  · obtain rfl := List.eq_nil_of_length_eq_zero empty
    exact ⟨nofun, nofun⟩
  have sorted := Ascending.sorted key ascending
  obtain ⟨inside, low, high⟩ := @narrow_between _ _ _ sorted wanted 0 rows.length positive
    (by simp) (.inl rfl) (fun item stands => by simp at stands)
  unfold searchByKey
  generalize narrow (rows.map key) wanted 0 rows.length = place at inside low high
  rw [List.length_map] at inside
  obtain ⟨row, stands⟩ : ∃ row, rows[place]? = some row := ⟨_, List.getElem?_eq_getElem inside⟩
  have parts := split_at stands
  have ordered := ascending
  rw [parts] at ordered
  obtain ⟨_, fromRow, across⟩ := List.pairwise_append.mp ordered
  have earlier : ∀ old ∈ rows.take place, key old < key row := fun old member =>
    across old member row List.mem_cons_self
  obtain ⟨later, _⟩ := List.pairwise_cons.mp fromRow
  simp only [stands]
  by_cases found : key row = wanted
  · rw [if_pos found]
    exact ⟨row, stands, found, found ▸ earlier, found ▸ later⟩
  rw [if_neg found]
  by_cases before : key row < wanted
  · rw [if_pos before]
    constructor
    · intro old member
      rw [List.take_add_one, stands] at member
      rcases List.mem_append.mp member with first | last
      · exact (earlier old first).trans before
      · obtain rfl := List.mem_singleton.mp last
        exact before
    · exact above_of_next key ascending high
  · have after : wanted < key row := lt_of_le_of_ne (not_lt.mp before) (Ne.symm found)
    rw [if_neg before]
    constructor
    · rcases low with rfl | ⟨item, there, atMost⟩
      · exact nofun
      · rw [List.getElem?_map, stands] at there
        obtain rfl := Option.some.inj there
        exact absurd after atMost.not_gt
    · intro old member
      rw [show rows.drop place = row :: rows.drop (place + 1) from ?_] at member
      · rcases List.mem_cons.mp member with rfl | rest
        · exact after
        · exact after.trans (later old rest)
      · obtain ⟨bound, rfl⟩ := List.getElem?_eq_some_iff.mp stands
        rw [List.getElem_cons_drop]

/-- What the search finds is what a scan finds. -/
theorem findByKey_eq (ascending : Ascending key rows) (wanted : κ) :
    findByKey key wanted rows = find key wanted rows := by
  have spec := searchByKey_spec key ascending wanted
  unfold findByKey
  split
  · rename_i place found
    rw [found] at spec
    obtain ⟨row, stands, named, -, -⟩ := spec
    rw [stands, ← named, find_of_mem key ascending (List.mem_of_getElem? stands)]
  · rename_i place missing
    rw [missing] at spec
    obtain ⟨below, above⟩ := spec
    refine ((find_none key).mpr fun row member => ?_).symm
    rw [← List.take_append_drop place rows] at member
    rcases List.mem_append.mp member with first | last
    · exact (below row first).ne
    · exact (above row last).ne'

theorem upsert_between {row : ρ} {first last : List ρ} (below : ∀ old ∈ first, key old < key row)
    (above : ∀ old ∈ last, key row < key old) :
    upsert key row (first ++ last) = first ++ row :: last := by
  induction first with
  | nil =>
      cases last with
      | nil => rfl
      | cons old rows => exact if_pos (above old List.mem_cons_self)
  | cons old rows ih =>
      have before : key old < key row := below old List.mem_cons_self
      rw [List.cons_append, upsert, if_neg before.not_gt, if_neg before.ne',
        ih fun later member => below later (List.mem_cons_of_mem _ member), List.cons_append]

theorem upsert_over {row old : ρ} {first last : List ρ} (below : ∀ old ∈ first, key old < key row)
    (same : key row = key old) :
    upsert key row (first ++ old :: last) = first ++ row :: last := by
  induction first with
  | nil => simp [upsert, same]
  | cons head rows ih =>
      have before : key head < key row := below head List.mem_cons_self
      rw [List.cons_append, upsert, if_neg before.not_gt, if_neg before.ne',
        ih fun later member => below later (List.mem_cons_of_mem _ member), List.cons_append]

/-- A row is written where a scan would write it. -/
theorem upsertByKey_eq (ascending : Ascending key rows) (row : ρ) :
    upsertByKey key row rows = upsert key row rows := by
  have spec := searchByKey_spec key ascending (key row)
  unfold upsertByKey
  split
  · rename_i place found
    rw [found] at spec
    obtain ⟨old, stands, same, below, -⟩ := spec
    calc rows.set place row
        = rows.take place ++ row :: rows.drop (place + 1) := by
          rw [List.set_eq_take_append_cons_drop, if_pos (List.getElem?_eq_some_iff.mp stands).1]
      _ = upsert key row (rows.take place ++ old :: rows.drop (place + 1)) :=
          (upsert_over key below same.symm).symm
      _ = upsert key row rows := by rw [← split_at stands]
  · rename_i place missing
    rw [missing] at spec
    obtain ⟨below, above⟩ := spec
    rw [← upsert_between key below above, List.take_append_drop]

theorem change_none {change : ρ → ρ} (apart : ∀ row ∈ rows, key row ≠ wanted) :
    (rows.map fun row => if key row = wanted then change row else row) = rows :=
  (List.map_congr_left fun row member => if_neg (apart row member)).trans (List.map_id rows)

/-- The row with the key is changed, and no other. -/
theorem modifyByKey_eq (ascending : Ascending key rows) (change : ρ → ρ) (wanted : κ) :
    modifyByKey key change wanted rows =
      rows.map fun row => if key row = wanted then change row else row := by
  have spec := searchByKey_spec key ascending wanted
  unfold modifyByKey
  split
  · rename_i place found
    rw [found] at spec
    obtain ⟨row, stands, named, below, above⟩ := spec
    calc rows.modify place change
        = rows.take place ++ change row :: rows.drop (place + 1) := by
          rw [List.modify_eq_set_getElem?, stands]
          simp only [Option.map_eq_map, Option.map_some, Option.getD_some]
          rw [List.set_eq_take_append_cons_drop, if_pos (List.getElem?_eq_some_iff.mp stands).1]
      _ = (rows.take place ++ row :: rows.drop (place + 1)).map fun row =>
            if key row = wanted then change row else row := by
          rw [List.map_append, List.map_cons, if_pos named,
            change_none key fun old member => (below old member).ne,
            change_none key fun old member => (above old member).ne']
      _ = rows.map fun row => if key row = wanted then change row else row := by
          rw [← split_at stands]
  · rename_i place missing
    rw [missing] at spec
    obtain ⟨below, above⟩ := spec
    refine (change_none key fun row member => ?_).symm
    rw [← List.take_append_drop place rows] at member
    rcases List.mem_append.mp member with first | last
    · exact (below row first).ne
    · exact (above row last).ne'

/-- To change the row with a key is to write it back changed. -/
theorem upsert_change (ascending : Ascending key rows) {change : ρ → ρ} {row : ρ}
    (found : find key wanted rows = some row) (keeps : key (change row) = wanted) :
    upsert key (change row) rows =
      rows.map fun other => if key other = wanted then change other else other := by
  rw [upsert_replaces key (change row) ascending (by rw [keeps]; exact found)]
  refine List.map_congr_left fun other member => ?_
  rw [keeps]
  split
  · rename_i here
    have there := find_of_mem key ascending member
    rw [here, found] at there
    rw [Option.some.inj there]
  · rfl

/-- A change of one row that makes it count adds one to the count. -/
theorem countP_change (ascending : Ascending key rows) {counts : ρ → Bool} {change : ρ → ρ} {row : ρ}
    (member : row ∈ rows) (not : counts row = false) (now : counts (change row) = true) :
    (rows.map fun other => if key other = key row then change other else other).countP counts =
      rows.countP counts + 1 := by
  induction rows with
  | nil => simp at member
  | cons head rows ih =>
      obtain ⟨above, tail⟩ := List.pairwise_cons.mp ascending
      rcases List.mem_cons.mp member with rfl | later
      · rw [List.map_cons, if_pos rfl,
          change_none key fun other member => (above other member).ne', List.countP_cons_of_pos now,
          List.countP_cons_of_neg (by simp [not])]
      · rw [List.map_cons, if_neg (above row later).ne, List.countP_cons, ih tail later,
          List.countP_cons]
        omega

/-- Lookups by ascending keys give the rows of these keys, in the order of the table. -/
theorem filterMap_find (ascending : Ascending key rows) {ids : List κ} (ordered : ids.Pairwise (· < ·)) :
    (ids.filterMap fun wanted => find key wanted rows) = rows.filter fun row => key row ∈ ids := by
  have looked : ∀ row, row ∈ (ids.filterMap fun wanted => find key wanted rows) ↔
      row ∈ rows ∧ key row ∈ ids := by
    intro row
    rw [List.mem_filterMap]
    constructor
    · rintro ⟨wanted, listed, found⟩
      obtain ⟨member, rfl⟩ := find_some key found
      exact ⟨member, listed⟩
    · rintro ⟨member, listed⟩
      exact ⟨key row, listed, find_of_mem key ascending member⟩
  have distinct {table : List ρ} (ascending : Ascending key table) : table.Nodup :=
    ascending.imp fun before same => absurd (same ▸ before) (lt_irrefl _)
  have found : Ascending key (ids.filterMap fun wanted => find key wanted rows) := by
    refine List.pairwise_filterMap.mpr (ordered.imp ?_)
    intro first second before row here other there
    rw [(find_some key here).2, (find_some key there).2]
    exact before
  have kept : Ascending key (rows.filter fun row => key row ∈ ids) := ascending.filter _
  refine List.Perm.eq_of_pairwise (fun a b _ _ ab ba => absurd ab (lt_asymm ba)) found kept ?_
  refine (List.perm_ext_iff_of_nodup (distinct found) (distinct kept)).mpr fun row => ?_
  rw [looked, List.mem_filter, decide_eq_true_iff]

theorem rowsByKey_eq (ascending : Ascending key rows) (wanted : Finset κ) :
    rowsByKey key rows wanted = rows.filter fun row => key row ∈ wanted := by
  have scan : rowsByKey key rows wanted =
      (wanted.sort (· ≤ ·)).filterMap fun wanted => find key wanted rows :=
    List.filterMap_congr fun wanted _ => findByKey_eq key ascending wanted
  rw [scan, filterMap_find key ascending (Finset.sortedLT_sort wanted).pairwise]
  exact List.filter_congr fun row _ => by simp only [Finset.mem_sort]

end SearchedTables
