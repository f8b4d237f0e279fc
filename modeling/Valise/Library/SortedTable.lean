import Valise.Library.Numerals

/-!
Tables kept ascending by a key, where writing a row replaces the row of the same key.
-/

namespace SortedTables

variable {ρ κ : Type} [LinearOrder κ] (key : ρ → κ)

def upsert (row : ρ) : List ρ → List ρ
  | [] => [row]
  | old :: rows =>
      if key row < key old then row :: old :: rows
      else if key row = key old then row :: rows
      else old :: upsert row rows

def find (wanted : κ) : List ρ → Option ρ
  | [] => none
  | row :: rows => if key row = wanted then some row else find wanted rows

def Ascending (rows : List ρ) : Prop := rows.Pairwise fun first second => key first < key second

/-- Rows written one after the other over a table. -/
def upsertAll (table rows : List ρ) : List ρ :=
  rows.foldl (fun table row => upsert key row table) table

@[simp] theorem find_nil (wanted : κ) : find key wanted ([] : List ρ) = none := rfl

@[simp] theorem ascending_nil : Ascending key ([] : List ρ) := List.Pairwise.nil

theorem find_upsert (row : ρ) (wanted : κ) (table : List ρ) :
    find key wanted (upsert key row table) =
      if key row = wanted then some row else find key wanted table := by
  induction table with
  | nil => rfl
  | cons old rows ih =>
      by_cases before : key row < key old
      · simp only [upsert, before, if_true, find]
      · by_cases same : key row = key old
        · rw [upsert, if_neg before, if_pos same]
          simp only [find, same]
          split <;> rfl
        · simp only [upsert, before, if_false, same, find, ih]
          by_cases found : key old = wanted
          · have other : key row ≠ wanted := fun hit => same (hit.trans found.symm)
            simp [found, other]
          · simp [found]

theorem find_upsert_self (row : ρ) (table : List ρ) :
    find key (key row) (upsert key row table) = some row := by
  rw [find_upsert, if_pos (Eq.refl _)]

theorem find_upsert_other {row : ρ} {wanted : κ} (other : key row ≠ wanted) (table : List ρ) :
    find key wanted (upsert key row table) = find key wanted table := by
  rw [find_upsert, if_neg other]

theorem upsert_upsert {first second : ρ} (same : key first = key second) (table : List ρ) :
    upsert key second (upsert key first table) = upsert key second table := by
  induction table with
  | nil => simp [upsert, same]
  | cons old rows ih =>
      by_cases before : key second < key old
      · simp [upsert, same, before]
      · by_cases equal : key second = key old
        · simp [upsert, same, equal]
        · simp [upsert, same, before, equal, ih]

theorem find_some {wanted : κ} {table : List ρ} {row : ρ} (found : find key wanted table = some row) :
    row ∈ table ∧ key row = wanted := by
  induction table with
  | nil => simp at found
  | cons old rows ih =>
      simp only [find] at found
      split at found
      · rename_i hit
        obtain rfl := Option.some.inj found
        exact ⟨List.mem_cons_self, hit⟩
      · exact ⟨List.mem_cons_of_mem _ (ih found).1, (ih found).2⟩

theorem find_none {wanted : κ} {table : List ρ} :
    find key wanted table = none ↔ ∀ row ∈ table, key row ≠ wanted := by
  induction table with
  | nil => simp
  | cons old rows ih =>
      by_cases hit : key old = wanted
      · simp [find, hit]
      · simp [find, hit, ih]

theorem mem_upsert {row other : ρ} {table : List ρ} (member : other ∈ upsert key row table) :
    other = row ∨ other ∈ table := by
  induction table with
  | nil => exact .inl (List.mem_singleton.mp member)
  | cons old rows ih =>
      simp only [upsert] at member
      split at member
      · exact List.mem_cons.mp member
      · split at member
        · rcases List.mem_cons.mp member with new | kept
          · exact .inl new
          · exact .inr (List.mem_cons_of_mem _ kept)
        · rcases List.mem_cons.mp member with head | tail
          · exact .inr (head ▸ List.mem_cons_self)
          · exact (ih tail).imp_right (List.mem_cons_of_mem _)

/-- Where a row is all key, the tables are sets. -/
theorem mem_upsert_iff (injective : Function.Injective key) {row other : ρ} {table : List ρ} :
    other ∈ upsert key row table ↔ other = row ∨ other ∈ table := by
  refine ⟨mem_upsert key, ?_⟩
  induction table with
  | nil => simp [upsert]
  | cons old rows ih =>
      intro listed
      simp only [upsert]
      split
      · exact List.mem_cons.mpr listed
      · split
        · rename_i same
          rw [injective same] at listed ⊢
          rcases listed with rfl | listed
          · exact List.mem_cons_self
          · exact listed
        · rcases listed with new | listed
          · exact List.mem_cons_of_mem _ (ih (.inl new))
          · rcases List.mem_cons.mp listed with head | later
            · exact head ▸ List.mem_cons_self
            · exact List.mem_cons_of_mem _ (ih (.inr later))

theorem mem_upsertAll_iff (injective : Function.Injective key) {rows table : List ρ} {other : ρ} :
    other ∈ upsertAll key table rows ↔ other ∈ rows ∨ other ∈ table := by
  induction rows generalizing table with
  | nil => simp [upsertAll]
  | cons row rows ih =>
      have unfolded : upsertAll key table (row :: rows) =
          upsertAll key (upsert key row table) rows := rfl
      rw [unfolded, ih, mem_upsert_iff key injective, List.mem_cons]
      tauto

theorem upsert_ascending {table : List ρ} (ascending : Ascending key table) (row : ρ) :
    Ascending key (upsert key row table) := by
  induction table with
  | nil => exact List.pairwise_singleton _ _
  | cons old rows ih =>
      obtain ⟨after, tail⟩ := List.pairwise_cons.mp ascending
      simp only [upsert]
      split
      · rename_i before
        refine List.pairwise_cons.mpr ⟨fun other member => ?_, ascending⟩
        rcases List.mem_cons.mp member with head | later
        · exact head ▸ before
        · exact before.trans (after other later)
      · rename_i notBefore
        split
        · rename_i same
          exact List.pairwise_cons.mpr ⟨fun other member => same ▸ after other member, tail⟩
        · rename_i different
          refine List.pairwise_cons.mpr ⟨fun other member => ?_, ih tail⟩
          rcases mem_upsert key member with new | kept
          · exact new ▸ lt_of_le_of_ne (not_lt.mp notBefore) (Ne.symm different)
          · exact after other kept

theorem upsertAll_ascending {table : List ρ} (ascending : Ascending key table) (rows : List ρ) :
    Ascending key (upsertAll key table rows) := by
  induction rows generalizing table with
  | nil => exact ascending
  | cons row rows ih => exact ih (upsert_ascending key ascending row)

theorem find_of_mem {table : List ρ} (ascending : Ascending key table) {row : ρ}
    (member : row ∈ table) : find key (key row) table = some row := by
  induction table with
  | nil => simp at member
  | cons old rows ih =>
      obtain ⟨after, tail⟩ := List.pairwise_cons.mp ascending
      rcases List.mem_cons.mp member with head | later
      · subst head
        simp [find]
      · have earlier : key old ≠ key row := ne_of_lt (after row later)
        simp only [find, earlier, if_false]
        exact ih tail later

theorem find_eq_some {table : List ρ} (ascending : Ascending key table) {wanted : κ} {row : ρ} :
    find key wanted table = some row ↔ row ∈ table ∧ key row = wanted := by
  constructor
  · exact find_some key
  · rintro ⟨member, hit⟩
    exact hit ▸ find_of_mem key ascending member

/-- Ascending tables that answer every lookup alike are the same table. -/
theorem eq_of_find {first second : List ρ} (firstAscending : Ascending key first)
    (secondAscending : Ascending key second)
    (alike : ∀ wanted, find key wanted first = find key wanted second) : first = second := by
  have members : ∀ row, row ∈ first ↔ row ∈ second := by
    intro row
    constructor
    · intro member
      have found := find_of_mem key firstAscending member
      rw [alike] at found
      exact (find_some key found).1
    · intro member
      have found := find_of_mem key secondAscending member
      rw [← alike] at found
      exact (find_some key found).1
  have distinct {table : List ρ} (ascending : Ascending key table) : table.Nodup :=
    ascending.imp fun before same => absurd (same ▸ before) (lt_irrefl _)
  refine List.Perm.eq_of_pairwise (fun a b _ _ ab ba => absurd ab (lt_asymm ba)) firstAscending
    secondAscending ?_
  exact (List.perm_ext_iff_of_nodup (distinct firstAscending) (distinct secondAscending)).mpr members

theorem find_append (wanted : κ) (first second : List ρ) :
    find key wanted (first ++ second) = (find key wanted first).or (find key wanted second) := by
  induction first with
  | nil => rfl
  | cons row rows ih =>
      simp only [List.cons_append, find]
      split
      · rfl
      · exact ih

/-- The last row written under a key is the one the table holds. -/
theorem find_upsertAll (table rows : List ρ) (wanted : κ) :
    find key wanted (upsertAll key table rows) =
      (find key wanted rows.reverse).or (find key wanted table) := by
  induction rows generalizing table with
  | nil => rfl
  | cons row rows ih =>
      have unfolded : upsertAll key table (row :: rows) =
          upsertAll key (upsert key row table) rows := rfl
      rw [unfolded, ih, List.reverse_cons, find_append, find_upsert, Option.or_assoc]
      congr 1
      simp only [find]
      split <;> rfl

theorem map_upsert {τ : Type} {other : τ → κ} {change : ρ → τ}
    (keeps : ∀ row, other (change row) = key row) (row : ρ) (table : List ρ) :
    (upsert key row table).map change = upsert other (change row) (table.map change) := by
  induction table with
  | nil => rfl
  | cons old rows ih =>
      by_cases before : key row < key old
      · simp [upsert, keeps, before]
      · by_cases same : key row = key old
        · simp [upsert, keeps, same]
        · simp [upsert, keeps, before, same, ih]

theorem find_map {τ : Type} {other : τ → κ} {change : ρ → τ}
    (keeps : ∀ row, other (change row) = key row) (wanted : κ) (table : List ρ) :
    find other wanted (table.map change) = (find key wanted table).map change := by
  induction table with
  | nil => rfl
  | cons row rows ih =>
      simp only [List.map_cons, find, keeps, ih]
      split <;> rfl

theorem ascending_map {τ : Type} {other : τ → κ} {change : ρ → τ}
    (keeps : ∀ row, other (change row) = key row) {table : List ρ} :
    Ascending other (table.map change) ↔ Ascending key table := by
  simp only [Ascending, List.pairwise_map, keeps]

/-- A row above every other enters at the end. -/
theorem upsert_last {row : ρ} {table : List ρ} (above : ∀ old ∈ table, key old < key row) :
    upsert key row table = table ++ [row] := by
  induction table with
  | nil => rfl
  | cons old rows ih =>
      have here : key old < key row := above old List.mem_cons_self
      rw [upsert, if_neg here.not_gt, if_neg here.ne',
        ih fun later member => above later (List.mem_cons_of_mem _ member), List.cons_append]

/-- A row that is there already is replaced where it stands. -/
theorem upsert_replaces (row : ρ) {old : ρ} {table : List ρ} (ascending : Ascending key table)
    (found : find key (key row) table = some old) :
    upsert key row table = table.map fun other => if key other = key row then row else other := by
  induction table with
  | nil => simp at found
  | cons head rows ih =>
      obtain ⟨above, rest⟩ := List.pairwise_cons.mp ascending
      by_cases same : key row = key head
      · have others : (rows.map fun other => if key other = key row then row else other) = rows := by
          refine (List.map_congr_left fun other member => if_neg ?_).trans (List.map_id rows)
          exact same ▸ (above other member).ne'
        rw [upsert, if_neg same.not_lt, if_pos same, List.map_cons, if_pos same.symm, others]
      · rw [find, if_neg (Ne.symm same)] at found
        have after : ¬key row < key head := by
          obtain ⟨member, named⟩ := find_some key found
          exact (named ▸ above old member).not_gt
        rw [upsert, if_neg after, if_neg same, List.map_cons, if_neg (Ne.symm same),
          ih rest found]

theorem upsertAll_append (table first second : List ρ) :
    upsertAll key table (first ++ second) = upsertAll key (upsertAll key table first) second :=
  List.foldl_append ..

theorem upsert_perm {row : ρ} {table : List ρ} (fresh : ∀ old ∈ table, key old ≠ key row) :
    (upsert key row table).Perm (row :: table) := by
  induction table with
  | nil => exact List.Perm.refl _
  | cons old rows ih =>
      have other : key row ≠ key old := (fresh old List.mem_cons_self).symm
      simp only [upsert, other, if_false]
      split
      · exact List.Perm.refl _
      · have inner := ih fun later member => fresh later (List.mem_cons_of_mem _ member)
        exact (inner.cons old).trans (List.Perm.swap row old rows)

theorem upsertAll_perm {table rows : List ρ} (distinct : (rows.map key).Nodup)
    (fresh : ∀ row ∈ rows, ∀ old ∈ table, key old ≠ key row) :
    (upsertAll key table rows).Perm (table ++ rows) := by
  induction rows generalizing table with
  | nil => simp [upsertAll]
  | cons row rows ih =>
      obtain ⟨apart, tail⟩ := List.nodup_cons.mp distinct
      have here := upsert_perm key (fresh row List.mem_cons_self)
      have rest := @ih (upsert key row table) tail (by
        intro later member old inside
        rcases mem_upsert key inside with new | kept
        · rw [new]
          exact fun same => apart (List.mem_map.mpr ⟨later, member, same.symm⟩)
        · exact fresh later (List.mem_cons_of_mem _ member) old kept)
      exact rest.trans ((here.append_right rows).trans List.perm_middle.symm)

/-- Rows of distinct keys written one by one end up sorted. -/
theorem upsertAll_eq_sort {rows : List ρ} (distinct : (rows.map key).Nodup) :
    upsertAll key [] rows = rows.insertionSort fun first second => key first ≤ key second := by
  have written := @upsertAll_perm _ _ _ key [] rows distinct (by simp)
  refine List.Perm.eq_of_pairwise (fun a b inA inB ab ba => ?_)
    ((upsertAll_ascending key (ascending_nil key) rows).imp fun before => before.le)
    (List.pairwise_insertionSort _ rows)
    (written.trans (List.perm_insertionSort _ rows).symm)
  have left : a ∈ rows := written.mem_iff.mp inA
  have right : b ∈ rows := (List.perm_insertionSort _ rows).mem_iff.mp inB
  exact List.inj_on_of_nodup_map distinct left right (le_antisymm ab ba)

/-! ### Maps, as tables of pairs ordered by the rank of their keys -/

section Maps

variable {α β : Type} (rank : α → κ)

def valueAt (wanted : α) (map : List (α × β)) : Option β :=
  (find (fun entry => rank entry.1) (rank wanted) map).map Prod.snd

def store (index : α) (value : β) (map : List (α × β)) : List (α × β) :=
  upsert (fun entry => rank entry.1) (index, value) map

@[simp] theorem valueAt_nil (wanted : α) : valueAt rank wanted ([] : List (α × β)) = none := rfl

theorem valueAt_store [DecidableEq α] (injective : Function.Injective rank) (wanted index : α)
    (value : β) (map : List (α × β)) :
    valueAt rank wanted (store rank index value map) =
      if index = wanted then some value else valueAt rank wanted map := by
  simp only [valueAt, store, find_upsert]
  by_cases same : index = wanted
  · simp [same]
  · have apart : rank index ≠ rank wanted := fun ranks => same (injective ranks)
    simp [same, apart]

theorem valueAt_map {γ : Type} (injective : Function.Injective rank) (change : α → β → γ)
    (wanted : α) (map : List (α × β)) :
    valueAt rank wanted (map.map fun (index, value) => (index, change index value)) =
      (valueAt rank wanted map).map (change wanted) := by
  induction map with
  | nil => rfl
  | cons entry rest ih =>
      simp only [valueAt, List.map_cons, find] at ih ⊢
      split
      · rename_i same
        rw [← injective same]
        rfl
      · exact ih

theorem valueAt_filterKeys (injective : Function.Injective rank) (keep : α → Bool) (wanted : α)
    (map : List (α × β)) : valueAt rank wanted (map.filter fun entry => keep entry.1) =
      if keep wanted then valueAt rank wanted map else none := by
  induction map with
  | nil => simp
  | cons entry rest ih =>
      by_cases kept : keep entry.1 = true
      · rw [List.filter_cons_of_pos (by simpa using kept)]
        simp only [valueAt, find] at ih ⊢
        by_cases here : rank entry.1 = rank wanted
        · have wantedKept : keep wanted = true := injective here ▸ kept
          simp [here, wantedKept]
        · simpa [here] using ih
      · rw [List.filter_cons_of_neg (by simpa using kept), ih]
        split
        · rename_i wantedKept
          have apart : rank entry.1 ≠ rank wanted := fun ranks =>
            kept (injective ranks ▸ wantedKept)
          simp [valueAt, find, apart]
        · rfl

theorem valueAt_filter [DecidableEq α] (injective : Function.Injective rank) (removed wanted : α)
    (map : List (α × β)) : valueAt rank wanted (map.filter fun entry => entry.1 ≠ removed) =
      if wanted = removed then none else valueAt rank wanted map := by
  rw [valueAt_filterKeys rank injective fun index => index ≠ removed]
  by_cases same : wanted = removed
  · simp [same]
  · simp [same]

theorem valueAt_eq_some {map : List (α × β)} (injective : Function.Injective rank)
    (ascending : Ascending (fun entry => rank entry.1) map) {wanted : α} {value : β} :
    valueAt rank wanted map = some value ↔ (wanted, value) ∈ map := by
  simp only [valueAt, Option.map_eq_some_iff]
  constructor
  · rintro ⟨⟨index, held⟩, found, equal⟩
    obtain ⟨member, ranks⟩ := find_some _ found
    obtain rfl := injective ranks
    exact equal ▸ member
  · intro member
    exact ⟨(wanted, value), find_of_mem (fun entry => rank entry.1) ascending member, rfl⟩

end Maps

end SortedTables
