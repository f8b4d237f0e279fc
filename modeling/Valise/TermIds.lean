import Valise.TextMirror

/-!
Term ids along runs of one text space: when a flush that assigns ids also leaves them on disk,
terms and the ids below the next one stay in bijection over every later commit and open.
-/

namespace Valise

open ByteLists Chains Outcomes Runs SortedTables

/-- A pending token that no term dictionary and no earlier flush of this handle knows. -/
def TextHandle.AssignsIds (handle : TextHandle) : Prop :=
  ∃ token ∈ pendingTokens handle.pending, handle.state.lookupTerm token = none

def TextHandle.Seen (handle : TextHandle) (bytes : Bytes) : Prop :=
  ∃ batch ∈ handle.flushed, bytes ∈ pendingTokens batch

/-- Steps in which a flush that assigns ids also publishes its dictionary segment. -/
inductive PersistedStep : TextHandle → TextHandle → Prop where
  | index {handle} (frameId collectionId tokens) :
      PersistedStep handle (handle.index frameId collectionId tokens)
  | commit {handle} (fault) :
      (handle.AssignsIds → fault = some .beforeFlush ∨ (handle.commit fault).2 = .ok ()) →
      PersistedStep handle (handle.commit fault).1
  | reopen {handle state} :
      handle.rebuilt = some state → PersistedStep handle (handle.reopened state)

structure TermBijection (handle : TextHandle) : Prop where
  sorted : Ascending (fun pair => bytesRank pair.1) handle.state.sortedTerms
  seen : ∀ bytes, handle.state.lookupTerm bytes ≠ none ↔ handle.Seen bytes
  below : ∀ bytes termId, handle.state.lookupTerm bytes = some termId →
    termId < handle.state.nextTermId
  onto : ∀ termId, termId < handle.state.nextTermId →
    ∃! bytes, handle.state.lookupTerm bytes = some termId

/-! ### The ids a flush assigns -/

def dictionaryPairs (dicts : List (List TermDictionaryEntry)) : List (Bytes × TermId) :=
  dicts.flatten.map fun entry => (entry.termBytes, entry.termId)

/-- The pairs of a state are determined up to their order. -/
theorem Terms.unique {state : TextSpaceState} {first second : List (Bytes × TermId)}
    (left : Terms state first) (right : Terms state second) : first.Perm second := by
  have firstNodup := List.Nodup.of_map _ left.bytesDistinct
  have secondNodup := List.Nodup.of_map _ right.bytesDistinct
  refine (List.perm_ext_iff_of_nodup firstNodup secondNodup).mpr fun pair => ?_
  rw [← left.known pair.1 pair.2, ← right.known pair.1 pair.2]

/-- As many distinct ids as there are below a bound are all of them. -/
theorem Terms.onto {state : TextSpaceState} {pairs : List (Bytes × TermId)}
    (terms : Terms state pairs) (dense : pairs.length = state.nextTermId.toNat)
    {termId : TermId} (below : termId < state.nextTermId) :
    ∃! bytes, state.lookupTerm bytes = some termId := by
  have injective : Function.Injective UInt32.toNat := fun _ _ same => UInt32.toNat_inj.mp same
  have distinct : ((pairs.map Prod.snd).map UInt32.toNat).Nodup :=
    List.Nodup.map injective terms.idsDistinct
  have inside : (pairs.map Prod.snd).map UInt32.toNat ⊆ List.range state.nextTermId.toNat := by
    intro id member
    obtain ⟨found, held, rfl⟩ := List.mem_map.mp member
    obtain ⟨pair, listed, rfl⟩ := List.mem_map.mp held
    exact List.mem_range.mpr (terms.below pair listed)
  have all := (List.subperm_of_subset distinct inside).perm_of_length_le
    (by simp [dense])
  have used : termId.toNat ∈ (pairs.map Prod.snd).map UInt32.toNat :=
    all.mem_iff.mpr (List.mem_range.mpr (UInt32.lt_iff_toNat_lt.mp below))
  obtain ⟨found, held, same⟩ := List.mem_map.mp used
  obtain ⟨pair, listed, rfl⟩ := List.mem_map.mp held
  obtain rfl := injective same
  have known : state.lookupTerm pair.1 = some pair.2 := (terms.known _ _).mpr listed
  exact ⟨pair.1, known, fun other alsoKnown => terms.injective alsoKnown known⟩

theorem assignTermIds_next {tokens : List Bytes} {state after : TextSpaceState}
    {records : List (TermId × Bytes)}
    (assigned : assignTermIds state tokens = (after, .ok records)) :
    after.nextTermId.toNat = state.nextTermId.toNat + records.length := by
  induction tokens generalizing state records with
  | nil =>
      simp only [assignTermIds, Prod.mk.injEq, Outcome.ok.injEq] at assigned
      obtain ⟨rfl, rfl⟩ := assigned
      rfl
  | cons token tokens ih =>
      simp only [assignTermIds] at assigned
      split at assigned
      · rename_i room
        obtain ⟨sameState, sameRecords⟩ := Prod.mk.inj assigned
        obtain ⟨rest, restOk, joined⟩ := Outcome.bind_eq_ok.mp sameRecords
        simp only [Outcome.pure_eq, Outcome.ok.injEq] at joined
        subst joined
        have later := @ih (state.withTerm token) _ (Prod.ext sameState restOk)
        have next : (state.withTerm token).nextTermId.toNat = state.nextTermId.toNat + 1 := by
          simp only [TextSpaceState.withTerm, UInt32.toNat_add]
          exact Nat.mod_eq_of_lt room
        rw [later, next, List.length_cons]
        omega
      · simp at assigned

structure SameTerms (first second : TextSpaceState) : Prop where
  sorted : second.sortedTerms = first.sortedTerms
  written : second.termIdByBytes = first.termIdByBytes
  next : second.nextTermId = first.nextTermId

theorem SameTerms.lookup {first second : TextSpaceState} (same : SameTerms first second) :
    second.lookupTerm = first.lookupTerm := by
  funext bytes
  rw [TextSpaceState.lookupTerm, TextSpaceState.lookupTerm, same.sorted, same.written]

theorem SameTerms.terms {first second : TextSpaceState} (same : SameTerms first second)
    {pairs : List (Bytes × TermId)} (terms : Terms first pairs) : Terms second pairs :=
  terms.congr same.sorted same.written same.next

/-- After the ids are assigned, the flush leaves the terms alone. -/
theorem buildFlushOutput_sameTerms (pending : PendingFrames) (state : TextSpaceState) :
    SameTerms (assignTermIds state (newTermBytes state (pendingTokens pending))).1
      (buildFlushOutput pending state).1 := by
  rcases assignedOk : assignTermIds state (newTermBytes state (pendingTokens pending)) with
    ⟨assigned, newTerms | error | _⟩
  · simp only [buildFlushOutput, assignedOk]
    cases flattenPending assigned.lookupTerm pending with
    | err error => exact ⟨rfl, rfl, rfl⟩
    | panic => exact ⟨rfl, rfl, rfl⟩
    | ok flat =>
        obtain ⟨docStats, withStats⟩ := docStats_same
          (pending.map fun entry => docStatsRecord entry.1 entry.2)
          ((postingLists flat).foldl applyPostingList assigned)
        obtain ⟨sorted, written, next⟩ := applyAll_terms (postingLists flat) assigned
        simp only [withStats]
        exact ⟨sorted, written, next⟩
  · simp only [buildFlushOutput, assignedOk]
    exact ⟨rfl, rfl, rfl⟩
  · simp only [buildFlushOutput, assignedOk]
    exact ⟨rfl, rfl, rfl⟩

theorem buildFlushOutput_assigned {pending : PendingFrames} {state : TextSpaceState}
    {out : FlushOutput} (built : (buildFlushOutput pending state).2 = .ok out) :
    ∃ records, (assignTermIds state (newTermBytes state (pendingTokens pending))).2 =
      .ok records := by
  rcases assignedOk : assignTermIds state (newTermBytes state (pendingTokens pending)) with
    ⟨assigned, newTerms | error | _⟩
  · exact ⟨newTerms, rfl⟩
  · simp [buildFlushOutput, assignedOk] at built
  · simp [buildFlushOutput, assignedOk] at built

/-- What a flush does to the terms, when it goes through. -/
structure TermsFlushed (before after : TextSpaceState) (pairs : List (Bytes × TermId))
    (pending : PendingFrames) (out : FlushOutput) : Prop where
  terms : Terms after (pairs ++ out.termDictSegment.map fun entry => (entry.termBytes, entry.termId))
  dense : after.nextTermId.toNat = before.nextTermId.toNat + out.termDictSegment.length
  known : ∀ bytes, after.lookupTerm bytes ≠ none ↔
    before.lookupTerm bytes ≠ none ∨ bytes ∈ pendingTokens pending
  sorted : after.sortedTerms = before.sortedTerms
  extended : ∀ bytes termId, before.lookupTerm bytes = some termId →
    after.lookupTerm bytes = some termId

theorem buildFlushOutput_terms {pending : PendingFrames} {before after : TextSpaceState}
    {pairs : List (Bytes × TermId)} {out : FlushOutput} (terms : Terms before pairs)
    (wellFormed : WellFormed pending)
    (built : buildFlushOutput pending before = (after, .ok out)) :
    TermsFlushed before after pairs pending out := by
  obtain ⟨lists, flushed⟩ := buildFlushOutput_spec terms wellFormed built
  obtain ⟨records, assigned⟩ := buildFlushOutput_assigned (congrArg Prod.snd built)
  obtain ⟨tokensDistinct, tokensNew⟩ := newTermBytes_spec before (pendingTokens pending)
  have same := buildFlushOutput_sameTerms pending before
  rw [built] at same
  obtain ⟨laterTerms, tokens, written, next, sameState⟩ := assignTermIds_spec terms tokensDistinct
    (fun token member => ((tokensNew token).mp member).2) (Prod.ext (Eq.refl _) assigned)
  have recorded := assignTermIds_next
    (Prod.ext (Eq.refl _) assigned : assignTermIds before _ = (_, .ok records))
  have length : out.termDictSegment.length = records.length := by
    have lengths := (flushed.terms.unique (same.terms laterTerms)).length_eq
    simp only [List.length_append, List.length_map] at lengths
    omega
  refine ⟨flushed.terms, ?_, fun bytes => ⟨fun found => ?_, fun found => ?_⟩, ?_, flushed.extended⟩
  · rw [same.next, recorded, length]
  · rw [same.lookup] at found
    obtain ⟨termId, hit⟩ := Option.ne_none_iff_exists'.mp found
    rcases List.mem_append.mp ((laterTerms.known bytes termId).mp hit) with old | new
    · exact .inl (by simp [(terms.known bytes termId).mpr old])
    · obtain ⟨entry, inside, pair⟩ := List.mem_map.mp new
      have token : bytes ∈ newTermBytes before (pendingTokens pending) := by
        rw [← tokens]
        exact List.mem_map.mpr ⟨entry, inside, congrArg Prod.fst pair⟩
      exact .inr ((tokensNew bytes).mp token).1
  · rcases found with old | new
    · obtain ⟨termId, hit⟩ := Option.ne_none_iff_exists'.mp old
      simp [flushed.extended bytes termId hit]
    · exact flushed.assigned bytes new
  · have unsorted := congrArg TextSpaceState.sortedTerms sameState
    exact same.sorted.trans unsorted

/-! ### What a run keeps -/

/-- The dictionary chain on disk holds every known term, and its ids are all below the next one. -/
structure TermsOnDisk (handle : TextHandle) (dicts : List (List TermDictionaryEntry)) : Prop where
  held : Holds handle.file.readTermDictionary handle.roots.termDictionaryRoot dicts
  fit : dicts.length ≤ handle.file.length
  terms : Terms handle.state (dictionaryPairs dicts)
  dense : dicts.flatten.length = handle.state.nextTermId.toNat
  wellFormed : WellFormed handle.pending
  sorted : Ascending (fun pair => bytesRank pair.1) handle.state.sortedTerms
  seen : ∀ bytes, handle.state.lookupTerm bytes ≠ none ↔ handle.Seen bytes

theorem termsOnDisk_created : TermsOnDisk {} [] where
  held := .empty
  fit := Nat.le_refl _
  terms := by
    refine ⟨by simp [dictionaryPairs], by simp [dictionaryPairs], fun bytes termId => ?_,
      by simp [dictionaryPairs]⟩
    simp [TextSpaceState.lookupTerm, dictionaryPairs]
  dense := rfl
  wellFormed := wellFormed_nil
  sorted := ascending_nil _
  seen bytes := by simp [TextSpaceState.lookupTerm, TextHandle.Seen]

theorem bumpTermId_least (entries : List TermDictionaryEntry) (next : TermId) {bound : Nat}
    (below : next.toNat ≤ bound)
    (all : ∀ entry ∈ entries, entry.termId.toNat < bound) :
    (entries.foldl bumpTermId next).toNat ≤ bound := by
  induction entries generalizing next with
  | nil => exact below
  | cons entry entries ih =>
      refine ih _ ?_ fun other member => all other (List.mem_cons_of_mem _ member)
      have small := all entry List.mem_cons_self
      unfold bumpTermId
      split
      · rw [UInt32.toNat_add]
        exact (Nat.mod_le _ _).trans small
      · exact below

/-- An open counts the next id as the live state did. -/
theorem loadTerms_next {state : TextSpaceState} {entries : List TermDictionaryEntry}
    (terms : Terms state (entries.map fun entry => (entry.termBytes, entry.termId)))
    (dense : entries.length = state.nextTermId.toNat) :
    (loadTerms entries {}).nextTermId = state.nextTermId := by
  have below : ∀ entry ∈ entries, entry.termId.toNat < state.nextTermId.toNat := by
    intro entry member
    exact terms.below (entry.termBytes, entry.termId) (List.mem_map_of_mem member)
  have least : (loadTerms entries {}).nextTermId.toNat ≤ state.nextTermId.toNat :=
    bumpTermId_least entries 0 (Nat.zero_le _) below
  have above : state.nextTermId.toNat ≤ (loadTerms entries {}).nextTermId.toNat := by
    by_contra smaller
    have next_below : (loadTerms entries {}).nextTermId < state.nextTermId :=
      UInt32.lt_iff_toNat_lt.mpr (by omega)
    obtain ⟨bytes, known, -⟩ := terms.onto (by simp [dense]) next_below
    obtain ⟨entry, member, pair⟩ := List.mem_map.mp ((terms.known _ _).mp known)
    have bumped := (bumpTermId_bound entries 0 fun other held => by
      have small := below other held
      have bound := state.nextTermId.toNat_lt
      omega).2 entry member
    have same : entry.termId = (loadTerms entries {}).nextTermId := congrArg Prod.snd pair
    rw [same] at bumped
    exact absurd bumped (Nat.lt_irrefl _)
  exact UInt32.toNat_inj.mp (Nat.le_antisymm least above)

section Steps

variable {handle : TextHandle} {dicts : List (List TermDictionaryEntry)}
  (onDisk : TermsOnDisk handle dicts)

include onDisk

theorem TermsOnDisk.bijection : TermBijection handle where
  sorted := onDisk.sorted
  seen := onDisk.seen
  below bytes termId known :=
    UInt32.lt_iff_toNat_lt.mpr (onDisk.terms.below (bytes, termId)
      ((onDisk.terms.known bytes termId).mp known))
  onto termId below :=
    onDisk.terms.onto (by rw [← onDisk.dense, dictionaryPairs, List.length_map]) below

/-- Steps that leave the terms in memory and the published dictionaries alone. -/
theorem TermsOnDisk.same {after : TextHandle} (more : TextFile)
    (file : after.file = handle.file ++ more) (roots : after.roots = handle.roots)
    (terms : SameTerms handle.state after.state) (wellFormed : WellFormed after.pending)
    (flushed : after.flushed = handle.flushed) : TermsOnDisk after dicts where
  held := by
    rw [file, roots]
    exact onDisk.held.mono (readTermDictionary_grow more)
  fit := by
    rw [file, List.length_append]
    exact onDisk.fit.trans (Nat.le_add_right _ _)
  terms := terms.terms onDisk.terms
  dense := by rw [terms.next, onDisk.dense]
  wellFormed := wellFormed
  sorted := by
    rw [terms.sorted]
    exact onDisk.sorted
  seen bytes := by
    rw [terms.lookup, onDisk.seen, TextHandle.Seen, TextHandle.Seen, flushed]

theorem TermsOnDisk.publish {after : TextSpaceState} {out : FlushOutput}
    (built : buildFlushOutput handle.pending handle.state = (after, .ok out)) :
    TermsOnDisk (handle.published after out) (dicts ++ [out.termDictSegment]) := by
  have flushed := buildFlushOutput_terms onDisk.terms onDisk.wellFormed built
  have longer : (TextHandle.appendFlush handle.file handle.roots out).1.length =
      handle.file.length + 3 := by simp [TextHandle.appendFlush]
  exact {
    held := by
      refine .link ?_ (onDisk.held.mono (readTermDictionary_grow _))
      simp [TextFile.readTermDictionary, TextHandle.published, TextHandle.appendFlush]
    fit := by
      have := onDisk.fit
      simp only [TextHandle.published, longer, List.length_append, List.length_singleton]
      omega
    terms := by
      rw [dictionaryPairs, List.flatten_append, List.map_append, List.flatten_cons,
        List.flatten_nil, List.append_nil]
      exact flushed.terms
    dense := by
      have dense := onDisk.dense
      have next := flushed.dense
      simp only [TextHandle.published, List.flatten_append, List.length_append, List.flatten_cons,
        List.flatten_nil, List.append_nil]
      omega
    wellFormed := wellFormed_nil
    sorted := by
      rw [TextHandle.published, flushed.sorted]
      exact onDisk.sorted
    seen := by
      intro bytes
      have old := onDisk.seen bytes
      have known := flushed.known bytes
      simp only [TextHandle.published, TextHandle.Seen, List.mem_append, List.mem_singleton]
      rw [known, old, TextHandle.Seen]
      constructor
      · rintro (⟨batch, held, token⟩ | token)
        · exact ⟨batch, .inl held, token⟩
        · exact ⟨handle.pending, .inr rfl, token⟩
      · rintro ⟨batch, held | rfl, token⟩
        · exact .inl ⟨batch, held, token⟩
        · exact .inr token }

/-- Without a new token a commit changes no term, wherever it fails. -/
theorem TermsOnDisk.commit_known (fault : Option CommitFault) (known : ¬handle.AssignsIds)
    (failed : (handle.commit fault).2 ≠ .ok ()) : TermsOnDisk (handle.commit fault).1 dicts := by
  have tokens : newTermBytes handle.state (pendingTokens handle.pending) = [] := by
    refine List.eq_nil_iff_forall_not_mem.mpr fun token member => known ⟨token, ?_⟩
    exact ((newTermBytes_spec handle.state (pendingTokens handle.pending)).2 token).mp member
  have same : SameTerms handle.state (buildFlushOutput handle.pending handle.state).1 := by
    have := buildFlushOutput_sameTerms handle.pending handle.state
    rwa [tokens] at this
  unfold TextHandle.commit at failed ⊢
  split
  · exact onDisk
  split
  · exact onDisk
  rcases built : buildFlushOutput handle.pending handle.state with ⟨after, out | error | _⟩
  · rw [built] at same
    by_cases unfaulted : fault = none
    · refine absurd ?_ failed
      rw [if_neg ‹_›, if_neg ‹_›, built]
      simp only [if_pos unfaulted]
    · simp only [if_neg unfaulted]
      exact onDisk.same _ rfl rfl same wellFormed_nil rfl
  · rw [built] at same
    exact onDisk.same [] (List.append_nil _).symm rfl same wellFormed_nil rfl
  · rw [built] at same
    exact onDisk.same [] (List.append_nil _).symm rfl same wellFormed_nil rfl

theorem TermsOnDisk.commit_ok (fault : Option CommitFault)
    (succeeded : (handle.commit fault).2 = .ok ()) :
    ∃ later, TermsOnDisk (handle.commit fault).1 later ∧
      ∀ bytes termId, handle.state.lookupTerm bytes = some termId →
        (handle.commit fault).1.state.lookupTerm bytes = some termId := by
  unfold TextHandle.commit at succeeded ⊢
  split
  · exact ⟨dicts, onDisk, fun _ _ found => found⟩
  split
  · exact ⟨dicts, onDisk, fun _ _ found => found⟩
  rename_i reached waiting
  rw [if_neg reached, if_neg waiting] at succeeded
  rcases built : buildFlushOutput handle.pending handle.state with ⟨after, out | error | _⟩
  · by_cases unfaulted : fault = none
    · simp only [if_pos unfaulted]
      exact ⟨_, onDisk.publish built, (buildFlushOutput_terms onDisk.terms onDisk.wellFormed
        built).extended⟩
    · simp [built, unfaulted] at succeeded
  · simp [built] at succeeded
  · simp [built] at succeeded

theorem TermsOnDisk.reopen {state : TextSpaceState} (opened : handle.rebuilt = some state) :
    TermsOnDisk (handle.reopened state) dicts := by
  have read := onDisk.held.walk _ onDisk.fit
  simp only [TextHandle.rebuilt, rebuildTextSpaceState, read, Option.bind_eq_bind,
    Option.bind_some, Option.bind_eq_some_iff] at opened
  obtain ⟨segs, -, docs, -, rebuilt⟩ := opened
  have state_eq : state = openedState dicts segs docs := (Option.some.inj rebuilt).symm
  obtain ⟨docStats, withStats⟩ := docStats_same docs.flatten
    (loadPostings segs (loadTerms dicts.flatten {}))
  obtain ⟨sorted, written, next⟩ := loadPostings_terms segs (loadTerms dicts.flatten {})
  have terms : Terms state (dictionaryPairs dicts) := state_eq ▸ openedState_terms onDisk.terms segs docs
  have lookups : state.lookupTerm = handle.state.lookupTerm := by
    funext bytes
    exact Option.ext fun termId =>
      (terms.known bytes termId).trans (onDisk.terms.known bytes termId).symm
  exact {
    held := onDisk.held
    fit := onDisk.fit
    terms := terms
    dense := by
      rw [TextHandle.reopened, state_eq, openedState, withStats, onDisk.dense]
      simp only [next, loadTerms_next onDisk.terms onDisk.dense]
    wellFormed := wellFormed_nil
    sorted := by
      rw [TextHandle.reopened, state_eq, openedState, withStats]
      simp only [sorted]
      exact loadTerms_sorted onDisk.terms.bytesDistinct
    seen := by
      rw [TextHandle.reopened, lookups]
      exact onDisk.seen }

/-- One step keeps the terms on disk, and every term its id. -/
theorem TermsOnDisk.step {after : TextHandle} (taken : PersistedStep handle after) :
    ∃ later, TermsOnDisk after later ∧
      ∀ bytes termId, handle.state.lookupTerm bytes = some termId →
        after.state.lookupTerm bytes = some termId := by
  cases taken with
  | index frameId collectionId tokens =>
      exact ⟨dicts, onDisk.same [] (List.append_nil _).symm rfl ⟨rfl, rfl, rfl⟩
        (onDisk.wellFormed.index frameId collectionId tokens) rfl, fun _ _ found => found⟩
  | commit fault guard =>
      by_cases succeeded : (handle.commit fault).2 = .ok ()
      · exact onDisk.commit_ok fault succeeded
      · by_cases early : fault = some .beforeFlush
        · rw [TextHandle.commit, if_pos early]
          exact ⟨dicts, onDisk, fun _ _ found => found⟩
        · have known : ¬handle.AssignsIds := fun assigns =>
            (guard assigns).elim early succeeded
          have later := onDisk.commit_known fault known succeeded
          refine ⟨dicts, later, fun bytes termId found => ?_⟩
          exact (later.terms.known bytes termId).mpr ((onDisk.terms.known bytes termId).mp found)
  | reopen opened =>
      have later := onDisk.reopen opened
      refine ⟨dicts, later, fun bytes termId found => ?_⟩
      exact (later.terms.known bytes termId).mpr ((onDisk.terms.known bytes termId).mp found)

end Steps

theorem termsOnDisk_reachable {handle : TextHandle}
    (run : Reachable (· = {}) PersistedStep handle) : ∃ dicts, TermsOnDisk handle dicts := by
  induction run with
  | start created => exact created ▸ ⟨[], termsOnDisk_created⟩
  | step _ taken ih =>
      obtain ⟨dicts, onDisk⟩ := ih
      obtain ⟨later, laterOnDisk, -⟩ := onDisk.step taken
      exact ⟨later, laterOnDisk⟩

/-- Along every run whose flushes leave the ids they assign on disk, the terms seen and the ids
below the next one are in bijection, and no later step takes a term's id away. -/
theorem termIds_stable (before after : TextHandle)
    (run : Reachable (· = {}) PersistedStep before)
    (later : Reachable (· = before) PersistedStep after) :
    TermBijection before ∧ ∀ bytes termId, before.state.lookupTerm bytes = some termId →
      after.state.lookupTerm bytes = some termId := by
  obtain ⟨dicts, onDisk⟩ := termsOnDisk_reachable run
  refine ⟨onDisk.bijection, fun bytes termId found => ?_⟩
  have kept : (∃ dicts, TermsOnDisk after dicts) ∧ after.state.lookupTerm bytes = some termId := by
    induction later with
    | start same =>
        rw [same]
        exact ⟨⟨dicts, onDisk⟩, found⟩
    | step _ taken ih =>
        obtain ⟨⟨dicts, firstOnDisk⟩, known⟩ := ih
        obtain ⟨later, secondOnDisk, extended⟩ := firstOnDisk.step taken
        exact ⟨⟨later, secondOnDisk⟩, extended bytes termId known⟩
  exact kept.2

/-- The third document comes after a reopen, with a known term and a new one. -/
def thirdBatch : TextHandle :=
  (firstCommitted.reopened (firstCommitted.rebuilt.get firstCommitted_opens)).index 3 1
    [[98], [99]]

theorem thirdBatch_stable : TermBijection firstCommitted ∧ ∀ bytes termId,
    firstCommitted.state.lookupTerm bytes = some termId →
      (thirdBatch.commit none).1.state.lookupTerm bytes = some termId := by
  have committed : Reachable (· = {}) PersistedStep firstCommitted :=
    .step (.step (.step (.start rfl) (.index 1 1 [[97], [98], [97]])) (.index 2 1 [[98]]))
      (.commit none fun _ => .inr (by decide +kernel))
  have later : Reachable (· = firstCommitted) PersistedStep (thirdBatch.commit none).1 :=
    .step (.step (.step (.start rfl) (.reopen (Option.some_get firstCommitted_opens).symm))
      (.index 3 1 [[98], [99]])) (.commit none fun _ => .inr (by decide +kernel))
  exact termIds_stable firstCommitted (thirdBatch.commit none).1 committed later

/-- The commit that assigned the ids failed after its flush; a later one published a frame with
one of them, and no dictionary. -/
def publishedTerm : TextHandle :=
  (((firstBatch.commit (some .afterFlush)).1.index 3 1 [[98]]).commit none).1

theorem publishedTerm_opens : publishedTerm.rebuilt.isSome = true := by decide +kernel

theorem publishedTerm_lost : ¬∀ before after : TextHandle, Reachable (· = {}) TextStep before →
    Reachable (· = before) TextStep after → ∀ bytes termId, before.Seen bytes →
      before.state.lookupTerm bytes = some termId → after.state.lookupTerm bytes = some termId := by
  intro claim
  have run : Reachable (· = {}) TextStep publishedTerm :=
    .step (.step (.step (.step (.step (.start rfl) (.index 1 1 [[97], [98], [97]]))
      (.index 2 1 [[98]])) (.commit (some .afterFlush))) (.index 3 1 [[98]])) (.commit none)
  have opened := claim publishedTerm _ run
    (.step (.start rfl) (.reopen (Option.some_get publishedTerm_opens).symm)) [98] 1
    ⟨[(3, PendingFrameIndex.fromTokens 1 [[98]])], by decide +kernel, by decide +kernel⟩
    (by decide +kernel)
  have unknown : (publishedTerm.rebuilt.get publishedTerm_opens).lookupTerm [98] = none := by
    decide +kernel
  rw [TextHandle.reopened, unknown] at opened
  simp at opened

end Valise
