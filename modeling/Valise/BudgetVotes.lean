import Valise.TextSessions

/-!
A vote that reads every list whole, and the rerank of a budgeted query: what a vote adds for a frame
is the sum that the rerank computes from the lists in frame order.
-/

namespace Valise

open ByteLists Caching Outcomes SortedTables TopKs

/-- No frame twice in a list, as many rows as the directory counts, and a length for each frame. -/
structure ScoredSpace.Tidy (space : ScoredSpace) : Prop where
  once : ∀ termId, (((space.lookupPostingsSparse termId).getD []).map TermRow.frameId).Nodup
  counted : ∀ termId, ((space.lookupPostingsSparse termId).getD []).length =
    (space.text.dfFor termId).toNat
  measured : ∀ termId, ∀ row ∈ (space.lookupPostingsSparse termId).getD [],
    0 < space.docLength row.frameId.toNat

section Votes

variable {K : Type} [Field K] (ln sqrt : K → K)
  (space : ScoredSpace) (tombstoned : List FrameId)

def termRows (termId : TermId) : List TermRow :=
  sortByImpact ((space.lookupPostingsSparse termId).getD [])

def readRows (limits : Option (List (TermId × Nat))) (termId : TermId) : List TermRow :=
  match limits with
  | none => termRows space termId
  | some limits => (termRows space termId).take (limitOf termId limits)

def voteValue (limits : Option (List (TermId × Nat))) (terms : List (TermId × Gain K))
    (arena : QueryArena K) : QueryArena K :=
  terms.foldl (fun arena term => (readRows space limits term.1).foldl
    (voteRow tombstoned space.docLengths.length term.2) arena)
    (arena.beginQuery space.docLengths.length)

/-- What a posting adds. -/
def gained (nFrames : Nat) (gain : Gain K) (row : TermRow) : Option (Nat × K) :=
  if row.frameId ∈ tombstoned then none
  else if nFrames ≤ row.frameId.toNat then none
  else (gain row.frameId.toNat row.termFreq).map fun delta => (row.frameId.toNat, delta)

def termGains (term : TermId × Gain K) : List (Nat × K) :=
  (termRows space term.1).filterMap (gained tombstoned space.docLengths.length term.2)

variable {space tombstoned}

variable (space tombstoned) in
theorem vote_serves (limits : Option (List (TermId × Nat))) (terms : List (TermId × Gain K))
    (arena : QueryArena K) : Serves (TextQueryCache.Coherent ln sqrt space)
      (vote space tombstoned limits terms arena)
      (voteValue space tombstoned limits terms arena) := by
  refine serves_foldlM (fun arena term => ?_) terms _
  refine (lookupOrBuildImpactPosting_serves ln sqrt term.1).bind ?_
  cases limits with
  | none => exact serves_pure _
  | some limits => exact serves_pure _

theorem voteRow_eq (nFrames : Nat) (gain : Gain K) (arena : QueryArena K) (row : TermRow) :
    voteRow tombstoned nFrames gain arena row =
      match gained tombstoned nFrames gain row with
      | none => arena
      | some item => arena.accumulate item.1 item.2 := by
  unfold voteRow gained
  split
  · rfl
  split
  · rfl
  cases gain row.frameId.toNat row.termFreq with
  | none => rfl
  | some delta => rfl

omit [Field K] in
theorem gained_inside {nFrames : Nat} {gain : Gain K} {row : TermRow} {item : Nat × K}
    (adds : gained tombstoned nFrames gain row = some item) :
    item.1 < nFrames ∧ item.1 = row.frameId.toNat ∧ row.frameId ∉ tombstoned := by
  unfold gained at adds
  split at adds
  · cases adds
  split at adds
  · cases adds
  rename_i kept inside
  obtain ⟨delta, _, rfl⟩ := Option.map_eq_some_iff.mp adds
  exact ⟨Nat.lt_of_not_le inside, rfl, kept⟩

theorem foldl_voteRow (nFrames : Nat) (gain : Gain K) (rows : List TermRow)
    (arena : QueryArena K) : rows.foldl (voteRow tombstoned nFrames gain) arena =
      (rows.filterMap (gained tombstoned nFrames gain)).foldl
        (fun arena item => arena.accumulate item.1 item.2) arena := by
  rw [List.foldl_filterMap]
  congr 1
  funext arena row
  rw [voteRow_eq]
  cases gained tombstoned nFrames gain row with
  | none => rfl
  | some item => rfl

variable (tombstoned) in
theorem voteTerms_totals {arena : QueryArena K} {added : List (Nat × K)}
    (totals : arena.Totals space.docLengths.length added) (terms : List (TermId × Gain K)) :
    (terms.foldl (fun arena term => (readRows space none term.1).foldl
      (voteRow tombstoned space.docLengths.length term.2) arena) arena).Totals
        space.docLengths.length (added ++ terms.flatMap (termGains space tombstoned)) := by
  induction terms generalizing arena added with
  | nil =>
      rw [List.flatMap_nil, List.append_nil]
      exact totals
  | cons term rest ih =>
      rw [List.flatMap_cons, ← List.append_assoc, List.foldl_cons]
      refine ih ?_
      rw [readRows, foldl_voteRow]
      refine totals.accumulateAll space.addressable _ fun item member => ?_
      obtain ⟨row, _, adds⟩ := List.mem_filterMap.mp member
      exact (gained_inside adds).1

variable (space tombstoned) in
/-- After a vote that reads every list the arena has the totals of all gains. -/
theorem voteValue_totals {arena : QueryArena K} (sound : arena.Sound)
    (terms : List (TermId × Gain K)) : (voteValue space tombstoned none terms arena).Totals
      space.docLengths.length (terms.flatMap (termGains space tombstoned)) := by
  have totals := voteTerms_totals tombstoned
    (sound.beginQuery space.docLengths.length) terms
  rwa [List.nil_append] at totals

/-- With room for every list the limits cut none. -/
theorem voteValue_full {limits : List (TermId × Nat)} {terms : List (TermId × Gain K)}
    (full : ∀ term ∈ terms, (termRows space term.1).length ≤ limitOf term.1 limits)
    (arena : QueryArena K) : voteValue space tombstoned (some limits) terms arena =
      voteValue space tombstoned none terms arena := by
  unfold voteValue
  refine List.foldl_ext _ _ _ fun arena term member => ?_
  rw [readRows, readRows, List.take_of_length_le (full term member)]

/-- Where no frame is live no list adds anything, however far it is read. -/
theorem voteValue_dead {terms : List (TermId × Gain K)}
    (dead : ∀ term ∈ terms, ∀ row ∈ termRows space term.1, row.frameId ∈ tombstoned)
    (limits : Option (List (TermId × Nat))) (arena : QueryArena K) :
    voteValue space tombstoned limits terms arena =
      arena.beginQuery space.docLengths.length := by
  have unread (gain : Gain K) : ∀ (rows : List TermRow) (arena : QueryArena K),
      (∀ row ∈ rows, row.frameId ∈ tombstoned) →
      rows.foldl (voteRow tombstoned space.docLengths.length gain) arena = arena := by
    intro rows
    induction rows with
    | nil => exact fun arena _ => rfl
    | cons row rest ih =>
        intro arena gone
        obtain ⟨here, later⟩ := List.forall_mem_cons.mp gone
        rw [List.foldl_cons, voteRow, if_pos here]
        exact ih arena later
  unfold voteValue
  generalize arena.beginQuery space.docLengths.length = begun
  induction terms with
  | nil => rfl
  | cons term rest ih =>
      obtain ⟨here, later⟩ := List.forall_mem_cons.mp dead
      rw [List.foldl_cons, unread]
      · exact ih later
      · intro row member
        unfold readRows at member
        cases limits with
        | none => exact here row member
        | some limits => exact here row (List.mem_of_mem_take member)

/-! ### The rerank computes what the vote added -/

/-- What a list has for a frame. -/
def frameGain (rows : List TermRow) (frameId : FrameId) (gain : Gain K) : K :=
  ((tfForFid rows frameId).bind (gain frameId.toNat)).getD 0

theorem total_gained {rows : List TermRow} (once : (rows.map TermRow.frameId).Nodup)
    {nFrames : Nat} {gain : Gain K} {frameId : FrameId} (kept : frameId ∉ tombstoned)
    (inside : frameId.toNat < nFrames) :
    QueryArena.total (rows.filterMap (gained tombstoned nFrames gain)) frameId.toNat =
      frameGain rows frameId gain := by
  induction rows with
  | nil => rfl
  | cons row rest ih =>
      obtain ⟨apart, later⟩ := List.nodup_cons.mp once
      have tail := ih later
      by_cases here : row.frameId = frameId
      · have gone : tfForFid rest frameId = none := by
          rw [tfForFid, Option.map_eq_none_iff, List.find?_eq_none]
          intro other member same
          refine apart (List.mem_map.mpr ⟨other, member, ?_⟩)
          rw [here]
          exact of_decide_eq_true same
        have nothing : frameGain rest frameId gain = 0 := by
          rw [frameGain, gone]
          rfl
        have found : tfForFid (row :: rest) frameId = some row.termFreq := by
          rw [tfForFid, List.find?_cons_of_pos (by simpa using here)]
          rfl
        have adds : gained tombstoned nFrames gain row =
            (gain frameId.toNat row.termFreq).map fun delta => (frameId.toNat, delta) := by
          rw [gained, here, if_neg kept, if_neg (Nat.not_le.mpr inside)]
        rw [frameGain, found, List.filterMap_cons, adds]
        cases given : gain frameId.toNat row.termFreq with
        | none =>
            simp only [Option.map_none, Option.bind_some, given, Option.getD_none]
            exact tail.trans nothing
        | some delta =>
            simp only [Option.map_some, Option.bind_some, given, Option.getD_some]
            rw [total_cons, if_pos rfl, tail, nothing, add_zero]
      · have found : tfForFid (row :: rest) frameId = tfForFid rest frameId := by
          rw [tfForFid, tfForFid, List.find?_cons_of_neg (by simpa using here)]
        rw [frameGain, found, List.filterMap_cons]
        cases adds : gained tombstoned nFrames gain row with
        | none => exact tail
        | some item =>
            have other : item.1 ≠ frameId.toNat := by
              rw [(gained_inside adds).2.1]
              exact fun same => here (UInt64.toNat_inj.mp same)
            dsimp only
            rw [total_cons, if_neg other, zero_add]
            exact tail

theorem total_perm {first second : List (Nat × K)} (same : first.Perm second) (idx : Nat) :
    QueryArena.total first idx = QueryArena.total second idx :=
  ((same.filter _).map _).sum_eq

theorem total_termGains (tidy : space.Tidy) (term : TermId × Gain K) {frameId : FrameId}
    (kept : frameId ∉ tombstoned) (inside : frameId.toNat < space.docLengths.length) :
    QueryArena.total (termGains space tombstoned term) frameId.toNat =
      frameGain ((space.lookupPostingsSparse term.1).getD []) frameId term.2 := by
  have same := (sortByImpact_perm ((space.lookupPostingsSparse term.1).getD [])).filterMap
    (gained tombstoned space.docLengths.length term.2)
  rw [termGains, termRows, total_perm same, total_gained (tidy.once term.1) kept inside]

theorem addGain_eq (rows : Option (List TermRow)) (frameId : FrameId) (gain : Gain K) (sum : K) :
    addGain rows frameId gain sum = sum + frameGain (rows.getD []) frameId gain := by
  cases rows with
  | none =>
      have none_found : frameGain [] frameId gain = 0 := rfl
      rw [Option.getD_none, none_found, add_zero]
      rfl
  | some rows =>
      rw [addGain, frameGain, Option.bind_some, Option.getD_some]
      cases (tfForFid rows frameId).bind (gain frameId.toNat) with
      | none => rw [Option.getD_none, add_zero]
      | some delta => rfl

/-- The exact sum of a frame that a vote may touch is what the vote adds for it. -/
theorem foldl_addGain (tidy : space.Tidy) {rows : TermId → Option (List TermRow)}
    (terms : List (TermId × Gain K))
    (original : ∀ term ∈ terms, rows term.1 = space.lookupPostingsSparse term.1)
    {frameId : FrameId} (kept : frameId ∉ tombstoned)
    (inside : frameId.toNat < space.docLengths.length) :
    terms.foldl (fun sum term => addGain (rows term.1) frameId term.2 sum) 0 =
      QueryArena.total (terms.flatMap (termGains space tombstoned)) frameId.toNat := by
  have summed : ∀ (terms : List (TermId × Gain K)) (start : K),
      (∀ term ∈ terms, rows term.1 = space.lookupPostingsSparse term.1) →
      terms.foldl (fun sum term => addGain (rows term.1) frameId term.2 sum) start = start +
        (terms.map fun term =>
          QueryArena.total (termGains space tombstoned term) frameId.toNat).sum := by
    intro terms
    induction terms with
    | nil =>
        intro start _
        rw [List.foldl_nil, List.map_nil, List.sum_nil, add_zero]
    | cons term rest ih =>
        intro start original
        obtain ⟨here, later⟩ := List.forall_mem_cons.mp original
        rw [List.foldl_cons, ih _ later, addGain_eq, here, List.map_cons, List.sum_cons,
          total_termGains tidy term kept inside, add_assoc]
  rw [summed terms 0 original, zero_add, total_flatMap]

/-- The lists that the rerank looks up are those of its terms. -/
def originalsValue (space : ScoredSpace) (terms : List TermId) : List (TermId × List TermRow) :=
  terms.foldl (fun held termId =>
    match space.lookupPostingsSparse termId with
    | none => held
    | some rows => store termRank termId rows held) []

theorem originalPostings_serves (terms : List TermId) :
    Serves (TextQueryCache.Coherent ln sqrt space) (originalPostings space terms)
      (originalsValue space terms) := by
  refine serves_foldlM (fun held termId => ?_) terms _
  refine (lookupOrDecodeOriginalPosting_serves ln sqrt termId).bind ?_
  cases space.lookupPostingsSparse termId with
  | none => exact serves_pure _
  | some rows => exact serves_pure _

theorem valueAt_originals (terms : List TermId) {termId : TermId} (member : termId ∈ terms) :
    valueAt termRank termId (originalsValue space terms) = space.lookupPostingsSparse termId := by
  have each : ∀ (terms : List TermId) (held : List (TermId × List TermRow)),
      valueAt termRank termId held = space.lookupPostingsSparse termId ∨
        valueAt termRank termId held = none ∧ termId ∈ terms →
      valueAt termRank termId (terms.foldl (fun held termId =>
        match space.lookupPostingsSparse termId with
        | none => held
        | some rows => store termRank termId rows held) held) =
          space.lookupPostingsSparse termId := by
    intro terms
    induction terms with
    | nil =>
        rintro held (found | ⟨_, absent⟩)
        · exact found
        · exact absurd absent List.not_mem_nil
    | cons first rest ih =>
        intro held known
        rw [List.foldl_cons]
        refine ih _ ?_
        by_cases same : first = termId
        · subst same
          left
          cases posting : space.lookupPostingsSparse first with
          | none =>
              rcases known with found | ⟨unheld, _⟩
              · exact found.trans posting
              · exact unheld
          | some rows => rw [valueAt_store termRank termRank_injective, if_pos rfl]
        · have unchanged : valueAt termRank termId (match space.lookupPostingsSparse first with
              | none => held
              | some rows => store termRank first rows held) = valueAt termRank termId held := by
            cases space.lookupPostingsSparse first with
            | none => rfl
            | some rows =>
                dsimp only
                rw [valueAt_store termRank termRank_injective, if_neg same]
          rw [unchanged]
          refine known.imp id fun ⟨unheld, later⟩ => ⟨unheld, ?_⟩
          exact (List.mem_cons.mp later).resolve_left fun here => same here.symm
  exact each terms [] (.inr ⟨rfl, member⟩)

end Votes

end Valise
