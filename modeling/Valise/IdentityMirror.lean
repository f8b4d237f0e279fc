import Valise.IdentityRebuild
import Valise.RecordCommits

/-!
An index that mirrors the rows: every active frame is the entry of its key, and an entry has just the
active vectors of its frame. Puts, deletes and flushes keep it so, and a rebuild finds it again.
-/

namespace Valise

open ByteLists Writer

section Mirror

variable {κ γ : Type} {tables : StoreTables κ} {entries : RecordId → Option Entry}

def ActiveFrame (tables : StoreTables κ) (id : RecordId) (frameId : Nat) : Prop :=
  ∃ row, tables.frames[frameId]? = some row ∧ row.active = true ∧ row.collectionId = id.1 ∧
    row.uri = some id.2

/-- An active vector of the frame, with its space. -/
def ActiveVector (tables : StoreTables κ) (frameId : Nat) (item : Nat × Nat) : Prop :=
  ∃ row, tables.vectors[item.2]? = some row ∧ row.active = true ∧ row.owner = frameId ∧
    row.spaceId = item.1

structure MirrorsRows (tables : StoreTables κ) (entries : RecordId → Option Entry) : Prop where
  frame : ∀ id entry, entries id = some entry →
    ActiveFrame tables id entry.frameId ∧ (Key.decode id.2).isSome = true
  entered : ∀ (frameId : Nat) (row : FrameRow), tables.frames[frameId]? = some row →
    row.active = true → ∃ id entry, entries id = some entry ∧ entry.frameId = frameId
  vectors : ∀ id entry, entries id = some entry → entry.vectors.Nodup ∧
    ∀ item, item ∈ entry.vectors ↔ ActiveVector tables entry.frameId item
  owned : ∀ (vectorId : Nat) (row : VectorRow), tables.vectors[vectorId]? = some row →
    row.active = true → ∃ id entry, entries id = some entry ∧ entry.frameId = row.owner
  spaced : ∀ (vectorId : Nat) (row : VectorRow), tables.vectors[vectorId]? = some row →
    row.spaceId < tables.spaces.length ∧ row.stored = true
  coded : ∀ row ∈ tables.spaces, row.codecId < tables.codecs.length

theorem ActiveFrame.keyed {id : RecordId} {frameId : Nat} (active : ActiveFrame tables id frameId) :
    KeyedBy tables id frameId := by
  obtain ⟨row, found, _, same⟩ := active
  exact ⟨row, found, same⟩

theorem ActiveFrame.lt {id : RecordId} {frameId : Nat} (active : ActiveFrame tables id frameId) :
    frameId < tables.frames.length := active.keyed.lt

/-- Each key has one active frame. -/
theorem MirrorsRows.frame_unique (mirrors : MirrorsRows tables entries) {id : RecordId} {frameId : Nat}
    (active : ActiveFrame tables id frameId) :
    ∃ entry, entries id = some entry ∧ entry.frameId = frameId := by
  obtain ⟨row, found, on, collection, uri⟩ := active
  obtain ⟨other, entry, there, same⟩ := mirrors.entered frameId row found on
  have keyed := (mirrors.frame other entry there).1.keyed
  rw [same] at keyed
  have ids : other = id := keyed.unique ⟨row, found, collection, uri⟩
  exact ⟨entry, ids ▸ there, same⟩

/-! ### Withdrawing a version -/

theorem tombstoneVectors_frames (items : List (Nat × Nat)) (tables : StoreTables κ) :
    (items.foldl (fun tables item => tables.tombstoneVector item.2) tables) =
      { tables with vectors := (items.foldl (fun tables item => tables.tombstoneVector item.2)
        tables).vectors } := by
  induction items generalizing tables with
  | nil => rfl
  | cons item rest ih =>
    rw [List.foldl_cons, ih]
    rfl

theorem tombstoneVectors_vectors (items : List (Nat × Nat)) (tables : StoreTables κ)
    (vectorId : Nat) :
    (items.foldl (fun tables item => tables.tombstoneVector item.2) tables).vectors[vectorId]? =
      (tables.vectors[vectorId]?).map fun row =>
        { row with active := row.active && !decide (vectorId ∈ items.map (·.2)) } := by
  induction items generalizing tables with
  | nil => simp
  | cons item rest ih =>
    have first : (tables.tombstoneVector item.2).vectors[vectorId]? =
        (tables.vectors[vectorId]?).map fun row =>
          { row with active := row.active && !decide (vectorId = item.2) } := by
      rw [StoreTables.tombstoneVector, List.getElem?_modify]
      by_cases same : item.2 = vectorId
      · simp [same]
      · have different : ¬ vectorId = item.2 := fun other => same other.symm
        simp [same, different]
    rw [List.foldl_cons, ih, first, Option.map_map]
    refine congrArg (Option.map · _) (funext fun row => ?_)
    rw [Function.comp_apply, List.map_cons]
    simp only [List.mem_cons, Bool.decide_or, Bool.not_or, Bool.and_assoc]

/-- What is withdrawn: the frame, and all vectors of an entry that may be replaced. -/
theorem withdraw_of_replaceable {entry : Entry} (tables : StoreTables κ)
    (replaceable : entry.committed = true ∨ entry.vectors = []) :
    withdraw entry tables = (entry.vectors.foldl (fun tables item => tables.tombstoneVector item.2)
      tables).tombstoneFrame entry.frameId := by
  unfold withdraw
  rcases replaceable with committed | none
  · rw [if_pos committed]
  · rw [none, List.foldl_nil, ite_self]

theorem withdraw_frames (entry : Entry) (tables : StoreTables κ) (frameId : Nat) :
    (withdraw entry tables).frames[frameId]? = (tables.frames[frameId]?).map fun row =>
      { row with active := row.active && !decide (frameId = entry.frameId) } := by
  have frames : (withdraw entry tables).frames =
      tables.frames.modify entry.frameId fun row => { row with active := false } := by
    unfold withdraw
    split
    · rw [tombstoneVectors_frames]
      rfl
    · rfl
  rw [frames, List.getElem?_modify]
  by_cases same : entry.frameId = frameId
  · simp [same]
  · have different : ¬ frameId = entry.frameId := fun other => same other.symm
    simp [same, different]

theorem withdraw_vectors {entry : Entry} (tables : StoreTables κ)
    (replaceable : entry.committed = true ∨ entry.vectors = []) (vectorId : Nat) :
    (withdraw entry tables).vectors[vectorId]? = (tables.vectors[vectorId]?).map fun row =>
      { row with active := row.active && !decide (vectorId ∈ entry.vectors.map (·.2)) } := by
  rw [withdraw_of_replaceable tables replaceable]
  exact tombstoneVectors_vectors entry.vectors tables vectorId

theorem withdraw_rest (entry : Entry) (tables : StoreTables κ) :
    (withdraw entry tables).spaces = tables.spaces ∧
      (withdraw entry tables).codecs = tables.codecs ∧
      (withdraw entry tables).postings = tables.postings := by
  unfold withdraw
  split
  · rw [tombstoneVectors_frames]
    exact ⟨rfl, rfl, rfl⟩
  · exact ⟨rfl, rfl, rfl⟩

theorem MirrorsRows.withdraw (mirrors : MirrorsRows tables entries) {id : RecordId} {prior : Entry}
    (existing : entries id = some prior)
    (replaceable : prior.committed = true ∨ prior.vectors = []) :
    MirrorsRows (withdraw prior tables) (Function.update entries id none) := by
  -- A frame or a vector that is still active was so before and is not of the version.
  have still {frameId : Nat} {row : FrameRow}
      (found : (Writer.withdraw prior tables).frames[frameId]? = some row)
      (active : row.active = true) :
      tables.frames[frameId]? = some row ∧ frameId ≠ prior.frameId := by
    rw [withdraw_frames] at found
    obtain ⟨old, there, rfl⟩ := Option.map_eq_some_iff.mp found
    simp only [Bool.and_eq_true, Bool.not_eq_true', decide_eq_false_iff_not] at active
    refine ⟨?_, active.2⟩
    simpa only [active.2, decide_false, Bool.not_false, Bool.and_true] using there
  have stays {vectorId : Nat} {row : VectorRow}
      (found : (Writer.withdraw prior tables).vectors[vectorId]? = some row)
      (active : row.active = true) :
      tables.vectors[vectorId]? = some row ∧ vectorId ∉ prior.vectors.map (·.2) := by
    rw [withdraw_vectors tables replaceable] at found
    obtain ⟨old, there, rfl⟩ := Option.map_eq_some_iff.mp found
    simp only [Bool.and_eq_true, Bool.not_eq_true', decide_eq_false_iff_not] at active
    refine ⟨?_, active.2⟩
    simpa only [active.2, decide_false, Bool.not_false, Bool.and_true] using there
  have apart {other : RecordId} {entry : Entry}
      (found : Function.update entries id none other = some entry) :
      entries other = some entry ∧ entry.frameId ≠ prior.frameId := by
    by_cases same : other = id
    · rw [same, Function.update_self] at found
      cases found
    · rw [Function.update_of_ne same] at found
      refine ⟨found, fun sameFrame => same ?_⟩
      exact (mirrors.frame other entry found).1.keyed.unique
        (sameFrame ▸ (mirrors.frame id prior existing).1.keyed)
  have kept {other : RecordId} {entry : Entry} (found : entries other = some entry)
      (different : entry.frameId ≠ prior.frameId) :
      Function.update entries id none other = some entry := by
    rw [Function.update_of_ne ?_, found]
    rintro rfl
    rw [existing] at found
    cases found
    exact different rfl
  have active_iff {frameId : Nat} (different : frameId ≠ prior.frameId) (item : Nat × Nat) :
      ActiveVector (Writer.withdraw prior tables) frameId item ↔
        ActiveVector tables frameId item := by
    constructor
    · rintro ⟨row, found, active, owner, space⟩
      exact ⟨row, (stays found active).1, active, owner, space⟩
    · rintro ⟨row, found, active, owner, space⟩
      refine ⟨row, ?_, active, owner, space⟩
      have outside : item.2 ∉ prior.vectors.map (·.2) := by
        intro member
        obtain ⟨⟨spaceId, vectorId⟩, inside, same⟩ := List.mem_map.mp member
        obtain ⟨row', found', _, owner', _⟩ := ((mirrors.vectors id prior existing).2 _).mp inside
        obtain rfl : vectorId = item.2 := same
        obtain rfl := Option.some.inj (found.symm.trans found')
        exact different (owner.symm.trans owner')
      rw [withdraw_vectors tables replaceable, found]
      simp [outside]
  obtain ⟨spaces, codecs, _⟩ := withdraw_rest prior tables
  refine ⟨?_, ?_, ?_, ?_, ?_, ?_⟩
  · intro other entry found
    obtain ⟨was, different⟩ := apart found
    obtain ⟨⟨row, there, active, same⟩, decodes⟩ := mirrors.frame other entry was
    refine ⟨⟨row, ?_, active, same⟩, decodes⟩
    rw [withdraw_frames, there]
    simp [different]
  · intro frameId row found active
    obtain ⟨was, different⟩ := still found active
    obtain ⟨other, entry, there, same⟩ := mirrors.entered frameId row was active
    exact ⟨other, entry, kept there (same ▸ different), same⟩
  · intro other entry found
    obtain ⟨was, different⟩ := apart found
    obtain ⟨nodup, members⟩ := mirrors.vectors other entry was
    exact ⟨nodup, fun item => (members item).trans (active_iff different item).symm⟩
  · intro vectorId row found active
    obtain ⟨was, outside⟩ := stays found active
    obtain ⟨other, entry, there, same⟩ := mirrors.owned vectorId row was active
    refine ⟨other, entry, kept there ?_, same⟩
    intro sameFrame
    refine outside (List.mem_map.mpr ⟨(row.spaceId, vectorId), ?_, rfl⟩)
    exact ((mirrors.vectors id prior existing).2 _).mpr
      ⟨row, was, active, same.symm.trans sameFrame, rfl⟩
  · intro vectorId row found
    rw [withdraw_vectors tables replaceable] at found
    obtain ⟨old, there, rfl⟩ := Option.map_eq_some_iff.mp found
    rw [spaces]
    exact mirrors.spaced vectorId old there
  · rw [spaces, codecs]
    exact mirrors.coded

/-! ### Entering rows -/

theorem MirrorsRows.enterFrame (mirrors : MirrorsRows tables entries) {id : RecordId}
    (absent : entries id = none) {row : FrameRow} (active : row.active = true)
    (collection : row.collectionId = id.1) (uri : row.uri = some id.2)
    (decodes : (Key.decode id.2).isSome = true) :
    MirrorsRows { tables with frames := tables.frames ++ [row] }
      (Function.update entries id (some ⟨tables.frames.length, [], false⟩)) := by
  have old {other : RecordId} {entry : Entry} (found : entries other = some entry) :
      Function.update entries id (some ⟨tables.frames.length, [], false⟩) other = some entry := by
    rw [Function.update_of_ne ?_, found]
    rintro rfl
    rw [absent] at found
    cases found
  have fresh (item : Nat × Nat) : ¬ ActiveVector tables tables.frames.length item := by
    rintro ⟨vector, found, on, owner, _⟩
    obtain ⟨other, entry, there, same⟩ := mirrors.owned item.2 vector found on
    exact ((mirrors.frame other entry there).1.lt).ne (same.trans owner)
  refine ⟨?_, ?_, ?_, ?_, mirrors.spaced, mirrors.coded⟩
  · intro other entry found
    by_cases same : other = id
    · subst same
      rw [Function.update_self] at found
      cases found
      exact ⟨⟨row, List.getElem?_concat_length, active, collection, uri⟩, decodes⟩
    · rw [Function.update_of_ne same] at found
      obtain ⟨⟨other, there, same⟩, decodes⟩ := mirrors.frame other entry found
      have inside := (List.getElem?_eq_some_iff.mp there).1
      exact ⟨⟨other, (List.getElem?_append_left inside).trans there, same⟩, decodes⟩
  · intro frameId other found on
    by_cases inside : frameId < tables.frames.length
    · obtain ⟨key, entry, there, same⟩ :=
        mirrors.entered frameId other ((List.getElem?_append_left inside).symm.trans found) on
      exact ⟨key, entry, old there, same⟩
    · have bound : frameId < (tables.frames ++ [row]).length :=
        (List.getElem?_eq_some_iff.mp found).1
      rw [List.length_append, List.length_singleton] at bound
      exact ⟨id, _, Function.update_self .., by dsimp only; omega⟩
  · intro other entry found
    by_cases same : other = id
    · rw [same, Function.update_self] at found
      cases found
      exact ⟨List.nodup_nil, fun item => ⟨nofun, fun there => absurd there (fresh item)⟩⟩
    · rw [Function.update_of_ne same] at found
      exact mirrors.vectors other entry found
  · intro vectorId vector found on
    obtain ⟨other, entry, there, same⟩ := mirrors.owned vectorId vector found on
    exact ⟨other, entry, old there, same⟩

/-- One more vector of a frame that an entry has. -/
theorem MirrorsRows.enterVector (mirrors : MirrorsRows tables entries) {id : RecordId}
    {entry : Entry} (existing : entries id = some entry) {spaceId : Nat}
    (inside : spaceId < tables.spaces.length) (values : List F32) :
    MirrorsRows { tables with
        vectors := tables.vectors ++ [{ owner := entry.frameId, spaceId, values }] }
      (Function.update entries id (some { entry with
        vectors := entry.vectors ++ [(spaceId, tables.vectors.length)] })) := by
  have new : (tables.vectors ++ [({ owner := entry.frameId, spaceId, values } : VectorRow)])[
      tables.vectors.length]? = some { owner := entry.frameId, spaceId, values } :=
    List.getElem?_concat_length
  have old (vectorId : Nat) (row : VectorRow) (different : vectorId ≠ tables.vectors.length) :
      (tables.vectors ++ [({ owner := entry.frameId, spaceId, values } : VectorRow)])[
        vectorId]? = some row ↔ tables.vectors[vectorId]? = some row := by
    by_cases earlier : vectorId < tables.vectors.length
    · rw [List.getElem?_append_left earlier]
    · rw [List.getElem?_eq_none (by simp; omega), List.getElem?_eq_none (by omega)]
  have length {frameId : Nat} {item : Nat × Nat} (there : ActiveVector tables frameId item) :
      item.2 ≠ tables.vectors.length := by
    obtain ⟨row, found, _⟩ := there
    exact (List.getElem?_eq_some_iff.mp found).1.ne
  have keeps {other : RecordId} {held : Entry} (found : entries other = some held) :
      ∃ now, Function.update entries id (some { entry with
        vectors := entry.vectors ++ [(spaceId, tables.vectors.length)] }) other = some now ∧
          now.frameId = held.frameId := by
    by_cases same : other = id
    · subst same
      obtain rfl := Option.some.inj (existing.symm.trans found)
      exact ⟨_, Function.update_self .., rfl⟩
    · exact ⟨held, (Function.update_of_ne same ..).trans found, rfl⟩
  refine ⟨?_, ?_, ?_, ?_, ?_, mirrors.coded⟩
  · intro other held found
    by_cases same : other = id
    · subst same
      rw [Function.update_self] at found
      cases found
      exact mirrors.frame other entry existing
    · rw [Function.update_of_ne same] at found
      exact mirrors.frame other held found
  · intro frameId row found on
    obtain ⟨other, held, there, same⟩ := mirrors.entered frameId row found on
    obtain ⟨now, updated, sameFrame⟩ := keeps there
    exact ⟨other, now, updated, sameFrame.trans same⟩
  · intro other held found
    by_cases same : other = id
    · subst same
      rw [Function.update_self] at found
      cases found
      obtain ⟨nodup, members⟩ := mirrors.vectors other entry existing
      refine ⟨?_, fun item => ?_⟩
      · refine List.nodup_append.mpr ⟨nodup, List.nodup_singleton _, ?_⟩
        intro item member last lastMember sameItem
        rw [List.mem_singleton.mp lastMember] at sameItem
        exact length ((members item).mp member) (by rw [sameItem])
      · rw [List.mem_append, List.mem_singleton, members]
        constructor
        · rintro (there | rfl)
          · have different := length there
            obtain ⟨row, found, rest⟩ := there
            exact ⟨row, (old _ _ different).mpr found, rest⟩
          · exact ⟨_, new, rfl, rfl, rfl⟩
        · rintro ⟨row, found, on, owner, space⟩
          by_cases last : item.2 = tables.vectors.length
          · rw [last] at found
            obtain rfl := Option.some.inj (new.symm.trans found)
            exact .inr (Prod.ext space.symm last)
          · exact .inl ⟨row, (old _ _ last).mp found, on, owner, space⟩
    · rw [Function.update_of_ne same] at found
      obtain ⟨nodup, members⟩ := mirrors.vectors other held found
      have apart : entry.frameId ≠ held.frameId := by
        intro sameFrame
        have keyed := (mirrors.frame id entry existing).1.keyed
        rw [sameFrame] at keyed
        exact same ((mirrors.frame other held found).1.keyed.unique keyed)
      refine ⟨nodup, fun item => (members item).trans ⟨?_, ?_⟩⟩
      · intro there
        have different := length there
        obtain ⟨row, found, rest⟩ := there
        exact ⟨row, (old _ _ different).mpr found, rest⟩
      · rintro ⟨row, found, on, owner, space⟩
        by_cases last : item.2 = tables.vectors.length
        · rw [last] at found
          obtain rfl := Option.some.inj (new.symm.trans found)
          exact absurd owner apart
        · exact ⟨row, (old _ _ last).mp found, on, owner, space⟩
  · intro vectorId row found on
    by_cases last : vectorId = tables.vectors.length
    · rw [last] at found
      obtain rfl := Option.some.inj (new.symm.trans found)
      obtain ⟨now, updated, sameFrame⟩ := keeps existing
      exact ⟨id, now, updated, sameFrame⟩
    · obtain ⟨other, held, there, same⟩ := mirrors.owned vectorId row ((old _ _ last).mp found) on
      obtain ⟨now, updated, sameFrame⟩ := keeps there
      exact ⟨other, now, updated, sameFrame.trans same⟩
  · intro vectorId row found
    by_cases last : vectorId = tables.vectors.length
    · rw [last] at found
      obtain rfl := Option.some.inj (new.symm.trans found)
      exact ⟨inside, rfl⟩
    · exact mirrors.spaced vectorId row ((old _ _ last).mp found)

theorem MirrorsRows.enterVectors (mirrors : MirrorsRows tables entries) {id : RecordId}
    {entry : Entry} (existing : entries id = some entry) {ready : List (Nat × List F32)}
    (inside : ∀ item ∈ ready, item.1 < tables.spaces.length) :
    MirrorsRows { tables with vectors := tables.vectors ++ readyRows entry.frameId ready }
      (Function.update entries id (some { entry with
        vectors := entry.vectors ++ readyIds tables.vectors.length ready })) := by
  induction ready generalizing tables entries entry with
  | nil =>
    have same : Function.update entries id (some entry) = entries := by
      rw [← existing, Function.update_eq_self]
    simpa [readyRows, readyIds, same] using mirrors
  | cons item rest ih =>
    have first := mirrors.enterVector existing (inside item List.mem_cons_self) item.2
    have others := ih first (Function.update_self ..)
      fun other later => inside other (List.mem_cons_of_mem _ later)
    simpa [readyRows, readyIds, List.zipIdx_cons] using others

theorem MirrorsRows.enter (mirrors : MirrorsRows tables entries) {id : RecordId}
    (absent : entries id = none) {row : FrameRow} (active : row.active = true)
    (collection : row.collectionId = id.1) (uri : row.uri = some id.2)
    (decodes : (Key.decode id.2).isSome = true) {plan : PutPlan}
    (inside : ∀ item ∈ plan.ready, item.1 < tables.spaces.length) :
    MirrorsRows (enter row plan tables) (Function.update entries id
      (some ⟨tables.frames.length, readyIds tables.vectors.length plan.ready, false⟩)) := by
  have framed := mirrors.enterFrame absent active collection uri decodes
  have whole := framed.enterVectors (Function.update_self ..) inside
  simp only [Function.update_idem, List.nil_append] at whole
  exact ⟨whole.frame, whole.entered, whole.vectors, whole.owned, whole.spaced, whole.coded⟩

theorem modify_append {α : Type} (items more : List α) {place : Nat} (inside : place < items.length)
    (change : α → α) :
    (items ++ more).modify place change = items.modify place change ++ more := by
  induction items generalizing place with
  | nil => cases inside
  | cons item rest ih =>
    cases place with
    | zero => rfl
    | succ place => simpa using ih (Nat.lt_of_succ_lt_succ inside)

theorem tombstoneVector_enter (row : FrameRow) (plan : PutPlan) {vectorId : Nat}
    (inside : vectorId < tables.vectors.length) :
    (enter row plan tables).tombstoneVector vectorId =
      enter row plan (tables.tombstoneVector vectorId) := by
  simp [enter, StoreTables.tombstoneVector, modify_append _ _ inside]

theorem tombstoneFrame_enter (row : FrameRow) (plan : PutPlan) {frameId : Nat}
    (inside : frameId < tables.frames.length) :
    (enter row plan tables).tombstoneFrame frameId =
      enter row plan (tables.tombstoneFrame frameId) := by
  simp [enter, StoreTables.tombstoneFrame, modify_append _ _ inside]

/-- A version is withdrawn after the new rows are entered, to the same end. -/
theorem withdraw_enter {entry : Entry} (row : FrameRow) (plan : PutPlan)
    (frame : entry.frameId < tables.frames.length)
    (vectors : ∀ item ∈ entry.vectors, item.2 < tables.vectors.length) :
    withdraw entry (enter row plan tables) = enter row plan (withdraw entry tables) := by
  have all (items : List (Nat × Nat)) (tables : StoreTables κ)
      (inside : ∀ item ∈ items, item.2 < tables.vectors.length) :
      items.foldl (fun tables item => tables.tombstoneVector item.2) (enter row plan tables) =
        enter row plan (items.foldl (fun tables item => tables.tombstoneVector item.2) tables) := by
    induction items generalizing tables with
    | nil => rfl
    | cons item rest ih =>
      rw [List.foldl_cons, tombstoneVector_enter row plan (inside item List.mem_cons_self), ih]
      · rfl
      · intro other later
        simpa [StoreTables.tombstoneVector] using inside other (List.mem_cons_of_mem _ later)
  unfold withdraw
  split
  · rw [all _ _ vectors, tombstoneFrame_enter]
    rw [tombstoneVectors_frames]
    exact frame
  · exact tombstoneFrame_enter row plan frame

theorem withdraw_lengths (entry : Entry) (tables : StoreTables κ) :
    (withdraw entry tables).frames.length = tables.frames.length ∧
      (withdraw entry tables).vectors.length = tables.vectors.length := by
  have vectors (items : List (Nat × Nat)) (tables : StoreTables κ) :
      (items.foldl (fun tables item => tables.tombstoneVector item.2) tables).vectors.length =
        tables.vectors.length := by
    induction items generalizing tables with
    | nil => rfl
    | cons item rest ih =>
      rw [List.foldl_cons, ih]
      exact List.length_modify ..
  unfold withdraw
  split
  · refine ⟨?_, vectors _ _⟩
    rw [tombstoneVectors_frames]
    exact List.length_modify ..
  · exact ⟨List.length_modify .., rfl⟩

/-- A put enters the rows of a record in place of those of its prior version. -/
theorem MirrorsRows.replace (mirrors : MirrorsRows tables entries) {id : RecordId}
    (replaceable : ∀ entry, entries id = some entry →
      entry.committed = true ∨ entry.vectors = []) {row : FrameRow} (active : row.active = true)
    (collection : row.collectionId = id.1) (uri : row.uri = some id.2)
    (decodes : (Key.decode id.2).isSome = true) {plan : PutPlan}
    (inside : ∀ item ∈ plan.ready, item.1 < tables.spaces.length) :
    MirrorsRows (withdrawPrior (entries id) (Writer.enter row plan tables)) (Function.update entries id
      (some ⟨tables.frames.length, readyIds tables.vectors.length plan.ready, false⟩)) := by
  cases existing : entries id with
  | none => exact mirrors.enter existing active collection uri decodes inside
  | some prior =>
    obtain ⟨spaces, _, _⟩ := withdraw_rest prior tables
    obtain ⟨frames, vectors⟩ := withdraw_lengths prior tables
    have withdrawn := mirrors.withdraw existing (replaceable prior existing)
    have entered := withdrawn.enter (Function.update_self ..) active collection uri decodes
      (by rwa [spaces])
    rw [Function.update_idem, frames, vectors] at entered
    have places : ∀ item ∈ prior.vectors, item.2 < tables.vectors.length := by
      intro item member
      obtain ⟨row, found, _⟩ := ((mirrors.vectors id prior existing).2 item).mp member
      exact (List.getElem?_eq_some_iff.mp found).1
    change MirrorsRows (Writer.withdraw prior (Writer.enter row plan tables)) _
    rw [withdraw_enter row plan (mirrors.frame id prior existing).1.lt places]
    exact entered

/-! ### Flushing staged vectors -/

theorem MirrorsRows.addSpaces (mirrors : MirrorsRows tables entries) {codecs : List κ}
    {spaces : List SpaceRow}
    (coded : ∀ row ∈ spaces, row.codecId < tables.codecs.length + codecs.length) :
    MirrorsRows { tables with
      codecs := tables.codecs ++ codecs, spaces := tables.spaces ++ spaces } entries where
  frame := mirrors.frame
  entered := mirrors.entered
  vectors := mirrors.vectors
  owned := mirrors.owned
  spaced := by
    intro vectorId row found
    obtain ⟨inside, stored⟩ := mirrors.spaced vectorId row found
    exact ⟨inside.trans_le (by simp), stored⟩
  coded := by
    intro row member
    rw [List.length_append]
    rcases List.mem_append.mp member with old | new
    · exact (mirrors.coded row old).trans_le (Nat.le_add_right _ _)
    · exact coded row new

theorem Writer.Calibrates.coded {codecs : StoreCodecs κ γ} {staged : List StagedVector}
    {entries : List (String × VectorSpaceEntry γ)} {before after : StoreTables κ}
    {found : List (String × Nat)} {rows : List SpaceRow}
    (calibrates : Calibrates codecs staged entries before found rows after) :
    ∃ added, after = { before with
      codecs := before.codecs ++ added, spaces := before.spaces ++ rows } ∧
        ∀ row ∈ rows, row.codecId < before.codecs.length + added.length := by
  induction calibrates with
  | nil tables => exact ⟨[], by simp⟩
  | ready _ ih => exact ih
  | skipped _ _ ih => exact ih
  | @fresh name dim _ _ _ before codec found rows after _ _ ih =>
    obtain ⟨added, rfl, coded⟩ := ih
    refine ⟨codec :: added, by simp [addCodecSpace], ?_⟩
    intro row member
    rcases List.mem_cons.mp member with rfl | later
    · simp
    · have bound := coded row later
      simp only [addCodecSpace, List.length_append, List.length_cons, List.length_nil] at bound ⊢
      omega

theorem MirrorsRows.attach {identity : IdentityIndex} {found : List (String × Nat)}
    {items : List StagedVector} (mirrors : MirrorsRows tables identity.entryAt)
    (owners : ∀ item ∈ items, ∃ entry,
      identity.entryAt (item.collection, item.keyBytes) = some entry ∧
        entry.frameId = item.ownerFrame)
    (inside : ∀ item ∈ items, ∀ spaceId, found.lookup item.spaceName = some spaceId →
      spaceId < tables.spaces.length) :
    MirrorsRows { tables with
        vectors := tables.vectors ++ pushRows (pushesOf found tables.vectors.length items) }
      (attach identity (pushesOf found tables.vectors.length items)).entryAt := by
  induction items generalizing tables identity with
  | nil => simpa [pushesOf, pushRows, Writer.attach] using mirrors
  | cons item rest ih =>
    have later (other : StagedVector) (member : other ∈ rest) :=
      owners other (List.mem_cons_of_mem _ member)
    have insides (other : StagedVector) (member : other ∈ rest) :=
      inside other (List.mem_cons_of_mem _ member)
    cases resolved : found.lookup item.spaceName with
    | none =>
      have skipped : pushesOf found tables.vectors.length (item :: rest) =
          pushesOf found tables.vectors.length rest := by
        simp [pushesOf, resolved]
      rw [skipped]
      exact ih mirrors later insides
    | some spaceId =>
      have pushed : pushesOf found tables.vectors.length (item :: rest) =
          (item, spaceId, tables.vectors.length) ::
            pushesOf found (tables.vectors.length + 1) rest := by
        simp [pushesOf, resolved]
      obtain ⟨entry, existing, frame⟩ := owners item List.mem_cons_self
      have first := mirrors.enterVector existing (inside item List.mem_cons_self _ resolved)
        item.values
      have entries : (identity.pushVector item.collection item.keyBytes spaceId
          tables.vectors.length).entryAt = Function.update identity.entryAt
            (item.collection, item.keyBytes) (some { entry with
              vectors := entry.vectors ++ [(spaceId, tables.vectors.length)] }) := by
        funext id
        rw [IdentityIndex.pushVector, IdentityIndex.entryAt_adjust, Function.update_apply]
        split
        · rename_i same
          rw [same, existing]
          rfl
        · rfl
      rw [← entries, frame] at first
      have others := ih first ?_ insides
      · rw [pushed]
        simpa [pushRows, Writer.attach] using others
      · intro other member
        obtain ⟨held, there, same⟩ := later other member
        rw [entries, Function.update_apply]
        split
        · rename_i key
          rw [key, existing] at there
          cases there
          exact ⟨_, rfl, same⟩
        · exact ⟨held, there, same⟩

theorem Writer.attach_uncommitted (identity : IdentityIndex) (pushes : Pushes) :
    (Writer.attach identity pushes).uncommitted = identity.uncommitted := by
  induction pushes generalizing identity with
  | nil => rfl
  | cons push rest ih =>
    change (Writer.attach (identity.pushVector _ _ _ _) rest).uncommitted = _
    rw [ih, IdentityIndex.pushVector, IdentityIndex.adjust]
    split <;> rfl

/-- What a name resolves to is an id that was ready, or the place of a row that was registered. -/
theorem Writer.Calibrates.placed {codecs : StoreCodecs κ γ} {staged : List StagedVector}
    {known : List (String × VectorSpaceEntry γ)} {before after : StoreTables κ}
    {found : List (String × Nat)} {rows : List SpaceRow}
    (calibrates : Calibrates codecs staged known before found rows after) {name : String}
    {spaceId : Nat} (member : (name, spaceId) ∈ found) :
    (∃ dim, (name, (⟨dim, .ready spaceId⟩ : VectorSpaceEntry γ)) ∈ known) ∨
      (name, spaceId) ∈ freshIds before.spaces.length rows := by
  induction calibrates with
  | nil => cases member
  | ready _ ih =>
    rcases List.mem_cons.mp member with same | later
    · cases same
      exact .inl ⟨_, List.mem_cons_self⟩
    · exact (ih later).imp_left fun ⟨dim, there⟩ => ⟨dim, List.mem_cons_of_mem _ there⟩
  | skipped _ _ ih =>
    exact (ih member).imp_left fun ⟨dim, there⟩ => ⟨dim, List.mem_cons_of_mem _ there⟩
  | fresh _ _ ih =>
    rw [freshIds_cons]
    rcases List.mem_cons.mp member with same | later
    · cases same
      exact .inr List.mem_cons_self
    · rcases ih later with ⟨dim, there⟩ | fresh
      · exact .inl ⟨dim, List.mem_cons_of_mem _ there⟩
      · refine .inr (List.mem_cons_of_mem _ ?_)
        simpa [addCodecSpace] using fresh

/-- Marking entries as committed is nothing to the rows. -/
theorem MirrorsRows.mark {identity : IdentityIndex}
    (mirrors : MirrorsRows tables identity.entryAt) :
    MirrorsRows tables identity.markAllCommitted.entryAt := by
  have marked {id : RecordId} {entry : Entry} (found : identity.markAllCommitted.entryAt id = some entry) :
      ∃ prior, identity.entryAt id = some prior ∧ entry.frameId = prior.frameId ∧
        entry.vectors = prior.vectors := by
    rw [IdentityIndex.entryAt_markAllCommitted] at found
    obtain ⟨prior, was, rfl⟩ := Option.map_eq_some_iff.mp found
    refine ⟨prior, was, ?_⟩
    split
    · exact ⟨rfl, rfl⟩
    · exact ⟨rfl, rfl⟩
  have kept {id : RecordId} {prior : Entry} (was : identity.entryAt id = some prior) :
      ∃ entry, identity.markAllCommitted.entryAt id = some entry ∧
        entry.frameId = prior.frameId := by
    refine ⟨_, (IdentityIndex.entryAt_markAllCommitted _ id).trans (congrArg _ was), ?_⟩
    split
    · rfl
    · rfl
  refine ⟨?_, ?_, ?_, ?_, mirrors.spaced, mirrors.coded⟩
  · intro id entry found
    obtain ⟨prior, was, frame, _⟩ := marked found
    rw [frame]
    exact mirrors.frame id prior was
  · intro frameId row found active
    obtain ⟨id, prior, was, same⟩ := mirrors.entered frameId row found active
    obtain ⟨entry, there, frame⟩ := kept was
    exact ⟨id, entry, there, frame.trans same⟩
  · intro id entry found
    obtain ⟨prior, was, frame, vectors⟩ := marked found
    rw [frame, vectors]
    exact mirrors.vectors id prior was
  · intro vectorId row found active
    obtain ⟨id, prior, was, same⟩ := mirrors.owned vectorId row found active
    obtain ⟨entry, there, frame⟩ := kept was
    exact ⟨id, entry, there, frame.trans same⟩

/-! ### Rebuilding -/

/-- Two indexes of the same rows have the same entries, up to the order of the vectors. -/
theorem MirrorsRows.agree {others : RecordId → Option Entry} (mirrors : MirrorsRows tables entries)
    (also : MirrorsRows tables others) {id : RecordId} {entry : Entry}
    (found : entries id = some entry) : ∃ other, others id = some other ∧
      other.frameId = entry.frameId ∧ other.vectors.Perm entry.vectors := by
  obtain ⟨other, there, same⟩ := also.frame_unique (mirrors.frame id entry found).1
  refine ⟨other, there, same, ?_⟩
  obtain ⟨nodup, members⟩ := mirrors.vectors id entry found
  obtain ⟨nodup', members'⟩ := also.vectors id other there
  rw [List.perm_ext_iff_of_nodup nodup' nodup]
  intro item
  rw [members', members, same]

section Rebuild

variable {engine : StoreEngine κ}

theorem keyed_iff_active (flushed : engine.unflushed = []) {id : RecordId} {frameId : Nat} :
    IdentityIndex.keyed engine frameId = some id ↔
      ActiveFrame engine.tables id frameId ∧ (Key.decode id.2).isSome = true := by
  rw [IdentityIndex.keyed_eq_some]
  constructor
  · rintro ⟨row, found, active, uri, decodes, collection⟩
    have read : engine.readFrameUri frameId = row.uri := by
      simp only [StoreEngine.readFrameUri, flushed, List.not_mem_nil, if_false, found,
        Option.bind_some]
    exact ⟨⟨row, found, active, collection, read.symm.trans uri⟩, decodes⟩
  · rintro ⟨⟨row, found, active, collection, uri⟩, decodes⟩
    have read : engine.readFrameUri frameId = row.uri := by
      simp only [StoreEngine.readFrameUri, flushed, List.not_mem_nil, if_false, found,
        Option.bind_some]
    exact ⟨row, found, active, read.trans uri, decodes, collection⟩

theorem IdentityIndex.mem_ownedVectors {id : RecordId} {spaceId : Nat} {vectorIds : List Nat}
    {item : Nat × Nat} : item ∈ ownedVectors engine id spaceId vectorIds ↔
      item.2 ∈ vectorIds ∧ item.1 = spaceId ∧ ∃ row, engine.tables.vectors[item.2]? = some row ∧
        row.active = true ∧ row.spaceId = spaceId ∧ keyed engine row.owner = some id := by
  obtain ⟨space, vectorId⟩ := item
  simp only [ownedVectors, List.mem_map, List.mem_filter, Option.any_eq_true, decide_eq_true_eq,
    Prod.mk.injEq]
  constructor
  · rintro ⟨_, ⟨member, row, found, holds⟩, rfl, rfl⟩
    exact ⟨member, rfl, row, found, holds⟩
  · rintro ⟨member, rfl, row, found, holds⟩
    exact ⟨vectorId, ⟨member, row, found, holds⟩, rfl, rfl⟩

/-- The entries of a rebuilt index are those of any index that mirrors the rows. -/
theorem MirrorsRows.rebuild (mirrors : MirrorsRows engine.tables entries)
    (flushed : engine.unflushed = []) :
    MirrorsRows engine.tables (IdentityIndex.rebuild engine).entryAt ∧
      ∀ id entry, (IdentityIndex.rebuild engine).entryAt id = some entry →
        entry.committed = true := by
  have unique {id : RecordId} {first second : Nat} (one : ActiveFrame engine.tables id first)
      (other : ActiveFrame engine.tables id second) : first = second := by
    obtain ⟨entry, found, same⟩ := mirrors.frame_unique one
    obtain ⟨entry', found', same'⟩ := mirrors.frame_unique other
    obtain rfl := Option.some.inj (found.symm.trans found')
    exact same.symm.trans same'
  -- A rebuilt entry is the active frame of its key, with every vector that the frame owns.
  have sound {id : RecordId} {entry : Entry}
      (found : (IdentityIndex.rebuild engine).entryAt id = some entry) :
      ActiveFrame engine.tables id entry.frameId ∧ (Key.decode id.2).isSome = true ∧
        entry = ⟨entry.frameId, (List.range engine.tables.spaces.length).flatMap fun spaceId =>
          IdentityIndex.ownedVectors engine id spaceId
            (List.range engine.tables.vectors.length), true⟩ := by
    rw [IdentityIndex.entryAt_rebuild] at found
    obtain ⟨first, was, rfl⟩ := Option.map_eq_some_iff.mp found
    obtain ⟨frameId, _, keyed, rfl⟩ := IdentityIndex.rebuiltFrames_sound was
    obtain ⟨active, decodes⟩ := (keyed_iff_active flushed).mp keyed
    exact ⟨active, decodes, rfl⟩
  have complete {id : RecordId} {entry : Entry} (found : entries id = some entry) :
      ∃ rebuilt, (IdentityIndex.rebuild engine).entryAt id = some rebuilt ∧
        rebuilt.frameId = entry.frameId := by
    have active := mirrors.frame id entry found
    obtain ⟨first, was⟩ := IdentityIndex.rebuiltFrames_complete active.1.lt
      ((keyed_iff_active flushed).mpr active)
    have rebuilt := (IdentityIndex.entryAt_rebuild engine id).trans (congrArg _ was)
    exact ⟨_, rebuilt, unique (sound rebuilt).1 active.1⟩
  refine ⟨⟨?_, ?_, ?_, ?_, mirrors.spaced, mirrors.coded⟩, ?_⟩
  · intro id entry found
    exact ⟨(sound found).1, (sound found).2.1⟩
  · intro frameId row found active
    obtain ⟨id, entry, there, same⟩ := mirrors.entered frameId row found active
    obtain ⟨rebuilt, again, sameFrame⟩ := complete there
    exact ⟨id, rebuilt, again, sameFrame.trans same⟩
  · intro id entry found
    obtain ⟨active, decodes, shape⟩ := sound found
    have vectors := congrArg Entry.vectors shape
    dsimp only at vectors
    rw [vectors]
    refine ⟨?_, fun item => ?_⟩
    · refine List.nodup_flatMap.mpr ⟨?_, ?_⟩
      · intro spaceId _
        refine List.Nodup.map (fun first second same => (Prod.ext_iff.mp same).2) ?_
        exact List.nodup_range.filter _
      · refine List.nodup_range.imp ?_
        intro first second different item one other
        exact different ((IdentityIndex.mem_ownedVectors.mp one).2.1.symm.trans
          (IdentityIndex.mem_ownedVectors.mp other).2.1)
    · simp only [List.mem_flatMap, List.mem_range, IdentityIndex.mem_ownedVectors]
      constructor
      · rintro ⟨spaceId, _, _, rfl, row, there, on, space, keyed⟩
        exact ⟨row, there, on, unique ((keyed_iff_active flushed).mp keyed).1 active, space⟩
      · rintro ⟨row, there, on, owner, space⟩
        refine ⟨item.1, ?_, ?_, rfl, row, there, on, space, ?_⟩
        · exact space ▸ (mirrors.spaced item.2 row there).1
        · exact (List.getElem?_eq_some_iff.mp there).1
        · exact (keyed_iff_active flushed).mpr ⟨owner ▸ active, decodes⟩
  · intro vectorId row found on
    obtain ⟨id, entry, there, same⟩ := mirrors.owned vectorId row found on
    obtain ⟨rebuilt, again, sameFrame⟩ := complete there
    exact ⟨id, rebuilt, again, sameFrame.trans same⟩
  · intro id entry found
    rw [(sound found).2.2]

end Rebuild

end Mirror

end Valise
