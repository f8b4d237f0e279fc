import Valise.Library.DeltaTable

/-!
Rows that belong to groups: the members of a group, in the order of the table, and the groups that
the dirty rows of the table touch. A group that is not touched keeps its members.
-/

namespace Groups

open SortedTables DeltaTables

variable {ρ κ γ : Type} [LinearOrder κ] (key : ρ → κ) (group : ρ → γ)

/-- Some dirty id names a row of the group. -/
def Touched (table : List ρ) (dirty : List κ) (wanted : γ) : Prop :=
  ∃ id ∈ dirty, ∃ row, find key id table = some row ∧ group row = wanted

/-- A row that is written stays in its group. -/
def StaysIn (table : List ρ) (row : ρ) : Prop :=
  ∀ old, find key (key row) table = some old → group old = group row

variable {key group} {table : List ρ} {dirty : List κ} {wanted : γ}

theorem touched_iff : Touched key group table dirty wanted ↔
    wanted ∈ (dirtyRecords key table dirty).map group := by
  simp only [Touched, dirtyRecords, List.mem_map, List.mem_filterMap]
  constructor
  · rintro ⟨id, listed, row, found, named⟩
    exact ⟨row, ⟨id, listed, found⟩, named⟩
  · rintro ⟨row, ⟨id, listed, found⟩, named⟩
    exact ⟨id, listed, row, found, named⟩

theorem Touched.mono {more : List κ} (touched : Touched key group table dirty wanted)
    (includes : ∀ id ∈ dirty, id ∈ more) : Touched key group table more wanted := by
  obtain ⟨id, listed, row, found, named⟩ := touched
  exact ⟨id, includes id listed, row, found, named⟩

theorem touched_upsert {row : ρ} (stays : StaysIn key group table row)
    (touched : Touched key group table dirty wanted) :
    Touched key group (upsert key row table) (markDirty (key row) dirty) wanted := by
  obtain ⟨id, listed, old, found, named⟩ := touched
  have kept : id ∈ markDirty (key row) dirty := mem_markDirty.mpr (.inr listed)
  by_cases same : key row = id
  · subst same
    exact ⟨key row, kept, row, find_upsert_self key row table, (stays old found).symm.trans named⟩
  · exact ⟨id, kept, old, (find_upsert_other key same table).trans found, named⟩

theorem touched_written (row : ρ) :
    Touched key group (upsert key row table) (markDirty (key row) dirty) (group row) :=
  ⟨key row, mem_markDirty.mpr (.inl rfl), row, find_upsert_self key row table, rfl⟩

/-! ### Members -/

section Members

variable [DecidableEq γ] (active : ρ → Bool)

variable (group) in
def members (table : List ρ) (wanted : γ) : List ρ :=
  (table.filter active).filter fun row => group row = wanted

variable {active}

theorem members_cons_other {row : ρ} (other : group row ≠ wanted) :
    members group active (row :: table) wanted = members group active table wanted := by
  unfold members
  rw [List.filter_cons]
  split
  · rw [List.filter_cons_of_neg (by simpa using other)]
  · rfl

theorem members_cons_congr {row : ρ} {first second : List ρ}
    (same : members group active first wanted = members group active second wanted) :
    members group active (row :: first) wanted = members group active (row :: second) wanted := by
  unfold members at same ⊢
  simp only [List.filter_cons]
  split
  · simp only [List.filter_cons, same]
  · exact same

/-- A row that is no longer active is one active row less. -/
theorem filter_upsert_inactive {row old : ρ} (ascending : Ascending key table)
    (found : find key (key row) table = some old) (inactive : active row = false) :
    (upsert key row table).filter active =
      (table.filter active).filter fun other => key other ≠ key row := by
  rw [upsert_replaces key row ascending found]
  clear ascending found
  induction table with
  | nil => rfl
  | cons head rows ih =>
      rw [List.map_cons, List.filter_cons, List.filter_cons, ih]
      by_cases same : key head = key row
      · rw [if_pos same, if_neg (by simp [inactive])]
        split
        · rw [List.filter_cons_of_neg (by simp [same])]
        · rfl
      · rw [if_neg same]
        split
        · rw [List.filter_cons_of_pos (by simp [same])]
        · rfl

/-- Only the group of a row changes when the row is written. -/
theorem members_upsert {row : ρ} (stays : StaysIn key group table row)
    (ascending : Ascending key table) (other : group row ≠ wanted) :
    members group active (upsert key row table) wanted = members group active table wanted := by
  induction table with
  | nil => exact members_cons_other other
  | cons old rows ih =>
      rw [upsert]
      split
      · exact members_cons_other other
      · split
        · rename_i same
          have there : find key (key row) (old :: rows) = some old := by
            rw [find, if_pos same.symm]
          have apart : group old ≠ wanted := by
            rw [stays old there]
            exact other
          rw [members_cons_other other, members_cons_other apart]
        · rename_i different
          have later : StaysIn key group rows row := by
            intro kept found
            refine stays kept ?_
            rw [find, if_neg (Ne.symm different)]
            exact found
          exact members_cons_congr (ih later (List.pairwise_cons.mp ascending).2)

variable (active) in
/-- A row that is written may change only its own group, which it touches. -/
theorem members_untouched {row : ρ} (stays : StaysIn key group table row)
    (ascending : Ascending key table)
    (untouched : ¬Touched key group (upsert key row table) (markDirty (key row) dirty) wanted) :
    members group active (upsert key row table) wanted = members group active table wanted ∧
      ¬Touched key group table dirty wanted := by
  constructor
  · refine members_upsert stays ascending ?_
    rintro rfl
    exact untouched (touched_written row)
  · intro touched
    exact untouched (touched_upsert stays touched)

end Members

end Groups
