import Valise.Recovery

/-!
The contract that a file's footers agree on. Votes are counted in a map, whose entries come in any
order; the digest that wins, and so the snapshot that a scan selects, is the same in every order.
-/

namespace Valise

open ByteLists Outcomes Ranking

/-- The order in which a map's entries are visited. -/
structure IterationOrder where
  visit : List Ballot → List Ballot
  perm : ∀ ballots, (visit ballots).Perm ballots

/-- More votes, and then the lower offset. -/
def Ballot.compare (left right : Ballot) : Ordering :=
  (Ord.compare left.votes right.votes).then (Ord.compare right.lowest left.lowest)

/-- The last of the greatest entries. -/
def maxBy (ballots : List Ballot) : Option Ballot :=
  ballots.foldl (fun best ballot => match best with
    | none => some ballot
    | some best => some (if best.compare ballot = .gt then best else ballot)) none

section Consensus

variable (digest : CreateContractV1 → Option Checksum)

abbrev digestOf (candidate : FooterCandidate) : Option Checksum :=
  digest candidate.footer.body.createContract

def digestible (candidates : List FooterCandidate) : List (Checksum × FooterCandidate) :=
  candidates.filterMap fun candidate =>
    (digestOf digest candidate).map fun found => (found, candidate)

/-- Votes and lowest offset seen, per digest. -/
def ballotGroups (entries : List (Checksum × FooterCandidate)) : List Ballot :=
  entries.foldl (fun groups (digest, candidate) => castVote groups digest candidate.offset) []

def consensusOf (order : IterationOrder) (entries : List (Checksum × FooterCandidate)) :
    List FooterCandidate :=
  match entries with
  | [(_, candidate)] => [candidate]
  | _ =>
      match maxBy (order.visit (ballotGroups entries)) with
      | some ballot =>
          if 2 ≤ ballot.votes then
            entries.filterMap fun (digest, candidate) =>
              if digest = ballot.digest then some candidate else none
          else []
      | none => []

def footerConsensus (order : IterationOrder) (candidates : List FooterCandidate) :
    List FooterCandidate :=
  consensusOf order (digestible digest candidates)

/-! ### What the footers agree on -/

/-- The candidates that carry a digest, in their order. -/
def carriers (candidates : List FooterCandidate) (found : Checksum) : List FooterCandidate :=
  candidates.filter fun candidate => digestOf digest candidate = some found

/-- A digest is the only one there is, or it has at least two votes, none has more, and of those
with as many it has the lowest footer. -/
def Leads (candidates : List FooterCandidate) (found : Checksum) : Prop :=
  (∃ only, candidates.filter (fun candidate => (digestOf digest candidate).isSome) = [only] ∧
      digestOf digest only = some found) ∨
    2 ≤ (carriers digest candidates found).length ∧ ∀ other,
      (carriers digest candidates other).length ≤ (carriers digest candidates found).length ∧
        (other ≠ found →
          (carriers digest candidates other).length = (carriers digest candidates found).length →
            ∃ lowest ∈ carriers digest candidates found,
              ∀ candidate ∈ carriers digest candidates other, lowest.offset < candidate.offset)

end Consensus

/-! ### Counting the votes -/

section Counting

def votesFor (entries : List (Checksum × FooterCandidate)) (digest : Checksum) :
    List FooterCandidate :=
  entries.filterMap fun (found, candidate) => if found = digest then some candidate else none

/-- Each digest has one ballot, with the votes for it and the lowest of their offsets. -/
structure Tally (entries : List (Checksum × FooterCandidate)) (ballots : List Ballot) : Prop where
  distinct : (ballots.map (·.digest)).Nodup
  counted : ∀ ballot ∈ ballots, ballot.votes = (votesFor entries ballot.digest).length
  lowest : ∀ ballot ∈ ballots, (∃ candidate ∈ votesFor entries ballot.digest,
      candidate.offset = ballot.lowest) ∧
    ∀ candidate ∈ votesFor entries ballot.digest, ballot.lowest ≤ candidate.offset
  whole : ∀ entry ∈ entries, entry.1 ∈ ballots.map (·.digest)

theorem votesFor_append (entries : List (Checksum × FooterCandidate)) (found : Checksum)
    (candidate : FooterCandidate) (digest : Checksum) :
    votesFor (entries ++ [(found, candidate)]) digest =
      votesFor entries digest ++ if found = digest then [candidate] else [] := by
  unfold votesFor
  rw [List.filterMap_append]
  refine congrArg _ ?_
  by_cases same : found = digest
  · simp [same]
  · simp [same]

theorem castVote_digests (ballots : List Ballot) (digest : Checksum) (offset : Nat) :
    (castVote ballots digest offset).map (·.digest) =
      if digest ∈ ballots.map (·.digest) then ballots.map (·.digest)
      else ballots.map (·.digest) ++ [digest] := by
  induction ballots with
  | nil => rfl
  | cons ballot rest ih =>
      rw [castVote]
      by_cases same : ballot.digest = digest
      · rw [if_pos same, List.map_cons, List.map_cons, ← same, if_pos List.mem_cons_self]
      · have other : digest ≠ ballot.digest := Ne.symm same
        rw [if_neg same, List.map_cons, List.map_cons, ih]
        simp only [List.mem_cons, other, false_or]
        split
        · rfl
        · rfl

theorem castVote_mem {ballots : List Ballot} {digest : Checksum} {offset : Nat} {ballot : Ballot}
    (distinct : (ballots.map (·.digest)).Nodup) (member : ballot ∈ castVote ballots digest offset) :
    ballot ∈ ballots ∧ ballot.digest ≠ digest ∨
      (∃ old ∈ ballots, old.digest = digest ∧
        ballot = ⟨digest, old.votes + 1, min old.lowest offset⟩) ∨
      digest ∉ ballots.map (·.digest) ∧ ballot = ⟨digest, 1, offset⟩ := by
  induction ballots with
  | nil => exact .inr (.inr ⟨nofun, List.mem_singleton.mp member⟩)
  | cons first rest ih =>
      obtain ⟨new, distinct⟩ := List.nodup_cons.mp distinct
      rw [castVote] at member
      by_cases same : first.digest = digest
      · rw [if_pos same] at member
        rcases List.mem_cons.mp member with rfl | later
        · exact .inr (.inl ⟨first, List.mem_cons_self, same, rfl⟩)
        · refine .inl ⟨List.mem_cons_of_mem _ later, fun also => new ?_⟩
          exact List.mem_map.mpr ⟨ballot, later, also.trans same.symm⟩
      · rw [if_neg same] at member
        rcases List.mem_cons.mp member with rfl | later
        · exact .inl ⟨List.mem_cons_self, same⟩
        · rcases ih distinct later with ⟨kept, other⟩ | ⟨old, listed, digest, now⟩ | ⟨fresh, now⟩
          · exact .inl ⟨List.mem_cons_of_mem _ kept, other⟩
          · exact .inr (.inl ⟨old, List.mem_cons_of_mem _ listed, digest, now⟩)
          · refine .inr (.inr ⟨fun listed => ?_, now⟩)
            rcases List.mem_cons.mp listed with here | later
            · exact same here.symm
            · exact fresh later

theorem Tally.vote {entries : List (Checksum × FooterCandidate)} {ballots : List Ballot}
    (tally : Tally entries ballots) (digest : Checksum) (candidate : FooterCandidate) :
    Tally (entries ++ [(digest, candidate)]) (castVote ballots digest candidate.offset) := by
  have digests := castVote_digests ballots digest candidate.offset
  have votes (other : Checksum) (apart : other ≠ digest) :
      votesFor (entries ++ [(digest, candidate)]) other = votesFor entries other := by
    rw [votesFor_append, if_neg apart.symm, List.append_nil]
  have voted : votesFor (entries ++ [(digest, candidate)]) digest =
      votesFor entries digest ++ [candidate] := by
    rw [votesFor_append, if_pos rfl]
  have unvoted (fresh : digest ∉ ballots.map (·.digest)) : votesFor entries digest = [] := by
    refine List.filterMap_eq_nil_iff.mpr fun entry among => if_neg fun same => fresh ?_
    exact same ▸ tally.whole entry among
  refine ⟨?_, fun ballot member => ?_, fun ballot member => ?_, fun entry among => ?_⟩
  · rw [digests]
    split
    · exact tally.distinct
    · rename_i fresh
      refine List.nodup_append.mpr ⟨tally.distinct, by simp, ?_⟩
      rintro other listed last here rfl
      rw [List.mem_singleton.mp here] at listed
      exact fresh listed
  · rcases castVote_mem tally.distinct member with ⟨kept, apart⟩ | ⟨old, kept, same, rfl⟩ |
      ⟨fresh, rfl⟩
    · rw [votes _ apart]
      exact tally.counted ballot kept
    · have before := tally.counted old kept
      rw [same] at before
      rw [voted, List.length_append, ← before]
      rfl
    · rw [voted, unvoted fresh]
      rfl
  · rcases castVote_mem tally.distinct member with ⟨kept, apart⟩ | ⟨old, kept, same, rfl⟩ |
      ⟨fresh, rfl⟩
    · rw [votes _ apart]
      exact tally.lowest ballot kept
    · obtain ⟨⟨first, carries, stands⟩, least⟩ := tally.lowest old kept
      rw [same] at carries least
      rw [voted]
      constructor
      · rcases Nat.le_total old.lowest candidate.offset with below | above
        · refine ⟨first, List.mem_append_left _ carries, ?_⟩
          rw [Nat.min_eq_left below]
          exact stands
        · refine ⟨candidate, List.mem_append_right _ (List.mem_singleton_self _), ?_⟩
          rw [Nat.min_eq_right above]
      · intro other among
        rcases List.mem_append.mp among with earlier | last
        · exact Nat.le_trans (Nat.min_le_left _ _) (least other earlier)
        · rw [List.mem_singleton.mp last]
          exact Nat.min_le_right _ _
    · rw [voted, unvoted fresh]
      exact ⟨⟨candidate, List.mem_singleton_self _, rfl⟩, fun other among => by
        obtain rfl := List.mem_singleton.mp among
        exact Nat.le_refl _⟩
  · rw [digests]
    rcases List.mem_append.mp among with earlier | last
    · have known := tally.whole entry earlier
      split
      · exact known
      · exact List.mem_append_left _ known
    · rw [List.mem_singleton.mp last]
      split
      · assumption
      · exact List.mem_append_right _ (List.mem_singleton_self _)

theorem tally_groups (entries : List (Checksum × FooterCandidate)) :
    Tally entries (ballotGroups entries) := by
  have after : ∀ (later earlier : List (Checksum × FooterCandidate)) (ballots : List Ballot),
      Tally earlier ballots → Tally (earlier ++ later)
        (later.foldl (fun groups (digest, candidate) =>
          castVote groups digest candidate.offset) ballots) := by
    intro later
    induction later with
    | nil =>
        intro earlier ballots tally
        rwa [List.append_nil]
    | cons entry rest ih =>
        intro earlier ballots tally
        have next := ih _ _ (tally.vote entry.1 entry.2)
        rwa [List.append_assoc, List.singleton_append] at next
  have start : Tally [] [] := by
    refine ⟨List.nodup_nil, ?_, ?_, ?_⟩
    · exact fun ballot member => absurd member List.not_mem_nil
    · exact fun ballot member => absurd member List.not_mem_nil
    · exact fun entry member => absurd member List.not_mem_nil
  have whole := after entries [] [] start
  rwa [List.nil_append] at whole

end Counting

/-! ### The greatest ballot -/

theorem compare_leads (left right : Ballot) :
    if left.compare right = .gt then left.leads right else right.leads left := by
  simp only [Ballot.compare, Ordering.then_eq_gt, Nat.compare_eq_gt, Nat.compare_eq_eq,
    Ballot.leads, Bool.or_eq_true, decide_eq_true_eq, Bool.and_eq_true]
  split
  · omega
  · omega

theorem leads_trans {first second third : Ballot} (ahead : first.leads second)
    (next : second.leads third) : first.leads third := by
  simp only [Ballot.leads, Bool.or_eq_true, decide_eq_true_eq, Bool.and_eq_true] at *
  omega

theorem leads_self (ballot : Ballot) : ballot.leads ballot := by
  simp [Ballot.leads]

/-- The greatest ballot so far leads those that were visited. -/
theorem maxBy_some {ballots : List Ballot} (some_ballot : ballots ≠ []) :
    ∃ best, maxBy ballots = some best ∧ best ∈ ballots ∧
      ∀ other ∈ ballots, best.leads other := by
  have after : ∀ (later : List Ballot) (start : Ballot), ∃ best,
      later.foldl (fun best ballot => match best with
        | none => some ballot
        | some best => some (if best.compare ballot = .gt then best else ballot)) (some start) =
          some best ∧ (best = start ∨ best ∈ later) ∧ best.leads start ∧
            ∀ other ∈ later, best.leads other := by
    intro later
    induction later with
    | nil => exact fun start => ⟨start, rfl, .inl rfl, leads_self start, nofun⟩
    | cons ballot rest ih =>
        intro start
        have order := compare_leads start ballot
        rw [List.foldl_cons]
        by_cases ahead : start.compare ballot = .gt
        · rw [if_pos ahead] at order
          dsimp only
          rw [if_pos ahead]
          obtain ⟨best, found, among, leads, wins⟩ := ih start
          refine ⟨best, found, among.imp_right (List.mem_cons_of_mem _), leads, fun other here => ?_⟩
          rcases List.mem_cons.mp here with rfl | later
          · exact leads_trans leads order
          · exact wins other later
        · rw [if_neg ahead] at order
          dsimp only
          rw [if_neg ahead]
          obtain ⟨best, found, among, leads, wins⟩ := ih ballot
          refine ⟨best, found, .inr ?_, leads_trans leads order, fun other here => ?_⟩
          · rcases among with rfl | later
            · exact List.mem_cons_self
            · exact List.mem_cons_of_mem _ later
          · rcases List.mem_cons.mp here with rfl | later
            · exact leads
            · exact wins other later
  cases ballots with
  | nil => exact absurd rfl some_ballot
  | cons first rest =>
      obtain ⟨best, found, among, leads, wins⟩ := after rest first
      refine ⟨best, found, List.mem_cons.mpr among, fun other here => ?_⟩
      rcases List.mem_cons.mp here with rfl | later
      · exact leads
      · exact wins other later

/-! ### The consensus -/

section Agreement

variable {digest : CreateContractV1 → Option Checksum} {candidates : List FooterCandidate}

theorem votesFor_digestible (found : Checksum) :
    votesFor (digestible digest candidates) found = carriers digest candidates found := by
  unfold votesFor digestible carriers
  rw [List.filterMap_filterMap, ← List.filterMap_eq_filter]
  refine List.filterMap_congr fun candidate _ => ?_
  cases carried : digestOf digest candidate with
  | none => simp [carried, Option.guard]
  | some other => by_cases same : other = found <;> simp [carried, same, Option.guard]

theorem digestible_candidates : (digestible digest candidates).map Prod.snd =
    candidates.filter fun candidate => (digestOf digest candidate).isSome := by
  unfold digestible
  rw [List.map_filterMap, ← List.filterMap_eq_filter]
  refine List.filterMap_congr fun candidate _ => ?_
  cases carried : digestOf digest candidate with
  | none => simp [carried, Option.guard]
  | some other => simp [carried, Option.guard]

theorem digestible_carries {entry : Checksum × FooterCandidate}
    (member : entry ∈ digestible digest candidates) :
    digestOf digest entry.2 = some entry.1 := by
  obtain ⟨candidate, _, mapped⟩ := List.mem_filterMap.mp member
  obtain ⟨found, carried, rfl⟩ := Option.map_eq_some_iff.mp mapped
  exact carried

theorem mem_carriers {found : Checksum} {candidate : FooterCandidate} :
    candidate ∈ carriers digest candidates found ↔
      candidate ∈ candidates ∧ digestOf digest candidate = some found := by
  simp [carriers]

theorem carriers_length_le (found : Checksum) : (carriers digest candidates found).length ≤
    (candidates.filter fun candidate => (digestOf digest candidate).isSome).length := by
  refine (List.monotone_filter_right candidates fun candidate carries => ?_).length_le
  rw [of_decide_eq_true carries]
  rfl

/-- At most one digest leads. -/
theorem leads_unique {found other : Checksum} (leads : Leads digest candidates found)
    (also : Leads digest candidates other) : found = other := by
  have few (only : FooterCandidate)
      (alone : candidates.filter (fun candidate => (digestOf digest candidate).isSome) = [only])
      (third : Checksum) : (carriers digest candidates third).length ≤ 1 := by
    have bound := @carriers_length_le digest candidates third
    rwa [alone] at bound
  rcases leads with ⟨only, alone, carries⟩ | ⟨two, wins⟩
  · rcases also with ⟨same, alike, here⟩ | ⟨two, _⟩
    · obtain rfl : only = same := (List.cons.inj (alone.symm.trans alike)).1
      exact Option.some.inj (carries.symm.trans here)
    · exact absurd (Nat.le_trans two (few only alone other)) (Nat.not_succ_le_self 1)
  · rcases also with ⟨only, alone, _⟩ | ⟨_, others⟩
    · exact absurd (Nat.le_trans two (few only alone found)) (Nat.not_succ_le_self 1)
    · by_contra apart
      have same := Nat.le_antisymm (others found).1 (wins other).1
      obtain ⟨low, carried, below⟩ := (wins other).2 (Ne.symm apart) same.symm
      obtain ⟨least, carriedToo, under⟩ := (others found).2 apart same
      exact absurd (below least carriedToo) (Nat.lt_asymm (under low carried))

/-- A digest that has votes has a ballot with as many. -/
theorem ballot_of_carriers {found : Checksum} (votes : carriers digest candidates found ≠ []) :
    ∃ ballot ∈ ballotGroups (digestible digest candidates), ballot.digest = found ∧
      ballot.votes = (carriers digest candidates found).length := by
  have tally := tally_groups (digestible digest candidates)
  obtain ⟨candidate, carries⟩ := List.exists_mem_of_ne_nil _ votes
  rw [← votesFor_digestible] at carries
  obtain ⟨entry, among, chosen⟩ := List.mem_filterMap.mp carries
  have same : entry.1 = found := by
    by_contra apart
    simp [apart] at chosen
  obtain ⟨ballot, listed, stands⟩ := List.mem_map.mp (tally.whole entry among)
  have counted := tally.counted ballot listed
  rw [stands, same, votesFor_digestible] at counted
  exact ⟨ballot, listed, stands.trans same, counted⟩

/-- The ballot that leads all others is that of the digest that leads. -/
theorem leads_of_ballot (distinct : (candidates.map (·.offset)).Nodup) {best : Ballot}
    (listed : best ∈ ballotGroups (digestible digest candidates)) (two : 2 ≤ best.votes)
    (wins : ∀ other ∈ ballotGroups (digestible digest candidates), best.leads other) :
    Leads digest candidates best.digest := by
  have tally := tally_groups (digestible digest candidates)
  have counted := tally.counted best listed
  rw [votesFor_digestible] at counted
  have ahead (other : Ballot) (here : other ∈ ballotGroups (digestible digest candidates)) :
      other.votes < best.votes ∨ other.votes = best.votes ∧ best.lowest ≤ other.lowest := by
    have leads := wins other here
    simp only [Ballot.leads, Bool.or_eq_true, decide_eq_true_eq, Bool.and_eq_true] at leads
    omega
  refine .inr ⟨counted ▸ two, fun other => ⟨?_, fun apart same => ?_⟩⟩
  · by_cases none : carriers digest candidates other = []
    · rw [none]
      exact Nat.zero_le _
    · obtain ⟨ballot, here, _, votes⟩ := ballot_of_carriers none
      have order := ahead ballot here
      omega
  · have some_votes : carriers digest candidates other ≠ [] := by
      intro none
      rw [none, ← counted] at same
      rw [← same] at two
      exact absurd two (by decide)
    obtain ⟨ballot, here, rfl, votes⟩ := ballot_of_carriers some_votes
    have order := ahead ballot here
    obtain ⟨⟨low, carried, stands⟩, _⟩ := tally.lowest best listed
    have least := (tally.lowest ballot here).2
    rw [votesFor_digestible] at carried least
    refine ⟨low, carried, fun candidate also => ?_⟩
    have bound := least candidate also
    have different : low.offset ≠ candidate.offset := by
      intro equal
      have one := List.inj_on_of_nodup_map distinct (mem_carriers.mp carried).1
        (mem_carriers.mp also).1 equal
      have both := (mem_carriers.mp carried).2.symm.trans (one ▸ (mem_carriers.mp also).2)
      exact apart (Option.some.inj both).symm
    omega

theorem not_leads_of_votes (several : (digestible digest candidates).length ≠ 1)
    (few : ∀ ballot ∈ ballotGroups (digestible digest candidates), ballot.votes < 2)
    (found : Checksum) : ¬Leads digest candidates found := by
  rintro (⟨only, alone, _⟩ | ⟨two, _⟩)
  · have size := congrArg List.length (@digestible_candidates digest candidates)
    rw [alone, List.length_map] at size
    exact several size
  · have some_votes : carriers digest candidates found ≠ [] := by
      intro none
      rw [none] at two
      exact absurd two (by decide)
    obtain ⟨ballot, here, _, votes⟩ := ballot_of_carriers some_votes
    have one := few ballot here
    omega

/-- The consensus is that of the digest that leads, or there is neither. -/
theorem footerConsensus_cases (distinct : (candidates.map (·.offset)).Nodup)
    (order : IterationOrder) :
    (∃ found, Leads digest candidates found ∧
        footerConsensus digest order candidates = carriers digest candidates found) ∨
      footerConsensus digest order candidates = [] ∧
        ∀ found, ¬Leads digest candidates found := by
  have general (several : (digestible digest candidates).length ≠ 1)
      (unfolded : footerConsensus digest order candidates =
        match maxBy (order.visit (ballotGroups (digestible digest candidates))) with
        | some ballot =>
            if 2 ≤ ballot.votes then votesFor (digestible digest candidates) ballot.digest else []
        | none => []) : (∃ found, Leads digest candidates found ∧
          footerConsensus digest order candidates = carriers digest candidates found) ∨
        footerConsensus digest order candidates = [] ∧
          ∀ found, ¬Leads digest candidates found := by
    have visited := order.perm (ballotGroups (digestible digest candidates))
    by_cases empty : order.visit (ballotGroups (digestible digest candidates)) = []
    · have nothing : footerConsensus digest order candidates = [] := by
        rw [unfolded, empty]
        rfl
      refine .inr ⟨nothing, not_leads_of_votes several fun ballot here => ?_⟩
      rw [← visited.mem_iff, empty] at here
      exact absurd here List.not_mem_nil
    · obtain ⟨best, chosen, among, wins⟩ := maxBy_some empty
      have leads (other : Ballot)
          (here : other ∈ ballotGroups (digestible digest candidates)) : best.leads other :=
        wins other (visited.mem_iff.mpr here)
      rw [chosen] at unfolded
      dsimp only at unfolded
      by_cases two : 2 ≤ best.votes
      · rw [if_pos two, votesFor_digestible] at unfolded
        exact .inl ⟨best.digest, leads_of_ballot distinct (visited.mem_iff.mp among) two leads,
          unfolded⟩
      · rw [if_neg two] at unfolded
        refine .inr ⟨unfolded, not_leads_of_votes several fun ballot here => ?_⟩
        have order := leads ballot here
        simp only [Ballot.leads, Bool.or_eq_true, decide_eq_true_eq, Bool.and_eq_true] at order
        omega
  cases entries : digestible digest candidates with
  | nil => exact general (by simp [entries]) (by rw [footerConsensus, entries]; rfl)
  | cons entry rest =>
      cases rest with
      | cons second rest => exact general (by simp [entries]) (by rw [footerConsensus, entries]; rfl)
      | nil =>
          have carries := digestible_carries (entries ▸ List.mem_cons_self)
          have alone := @digestible_candidates digest candidates
          rw [entries] at alone
          have only := @votesFor_digestible digest candidates entry.1
          rw [entries] at only
          refine .inl ⟨entry.1, .inl ⟨entry.2, alone.symm, carries⟩, ?_⟩
          rw [footerConsensus, entries, ← only]
          simp [consensusOf, votesFor]

end Agreement

/-! ### The snapshot that a scan selects -/

section Snapshot

variable (blake3 : Bytes → Checksum) (digest : CreateContractV1 → Option Checksum)
  (order : IterationOrder) {σ : Type} (load : Bytes → TocFooter → Except Error σ)

def matchesContract (header : Header) (candidate : FooterCandidate) : Bool :=
  digestOf digest candidate = some header.createContractDigest

def candidatesFor (header : Header) (scanned : List FooterCandidate) : List FooterCandidate :=
  let matching := scanned.filter (matchesContract digest header)
  let unanchored := scanned.filter fun candidate => !matchesContract digest header candidate
  if matching = [] ∧ unanchored ≠ [] then footerConsensus digest order unanchored else matching

def recoverByScan (image : FileImage) (cause : String) : Result (Nat × TocFooter × σ) := do
  let scanned ← scanForFooterCandidates blake3 image.data
  match best FooterCandidate.before (fun candidate => load image.data candidate.footer)
      (candidatesFor digest order image.header scanned) with
  | some (candidate, state) => return (candidate.offset, candidate.footer, state)
  | none => .err (.integrity ("open: " ++ cause ++ "; scan-back found no recoverable snapshot"))

/-- The scan finds each offset once. -/
theorem scanned_distinct {data : Bytes} {scanned : List FooterCandidate}
    (scan : scanForFooterCandidates blake3 data = .ok scanned) :
    (scanned.map (·.offset)).Nodup := by
  rw [scanForFooterCandidates_eq] at scan
  have ascending := scanBuffer_offset blake3 data headerSize data scan
  exact (List.pairwise_map.mpr ascending).imp Nat.ne_of_lt

theorem footerConsensus_order {candidates : List FooterCandidate}
    (distinct : (candidates.map (·.offset)).Nodup) (other : IterationOrder) :
    footerConsensus digest order candidates = footerConsensus digest other candidates := by
  rcases footerConsensus_cases distinct order with ⟨found, leads, same⟩ | ⟨nothing, no_leader⟩
  · rcases footerConsensus_cases distinct other with ⟨third, also, alike⟩ | ⟨_, no_leader⟩
    · rw [same, alike, leads_unique leads also]
    · exact absurd leads (no_leader found)
  · rcases footerConsensus_cases distinct other with ⟨third, also, _⟩ | ⟨alike, _⟩
    · exact absurd also (no_leader third)
    · rw [nothing, alike]

end Snapshot

/-- The consensus of the footers is the candidates of the digest that leads, in their order, and
empty where none does; a snapshot that a scan selects depends on no order of the votes. -/
theorem footerConsensus_wellDefined (digest : CreateContractV1 → Option Checksum) :
    (∀ candidates : List FooterCandidate, (candidates.map (·.offset)).Nodup →
      ∀ order, (∀ found, Leads digest candidates found →
          footerConsensus digest order candidates = carriers digest candidates found ∧
            footerConsensus digest order candidates ≠ []) ∧
        (footerConsensus digest order candidates = [] ↔
          ∀ found, ¬Leads digest candidates found)) ∧
      ∀ (blake3 : Bytes → Checksum) (σ : Type) (load : Bytes → TocFooter → Except Error σ)
        (image : FileImage) (cause : String) (order other : IterationOrder),
        recoverByScan blake3 digest order load image cause =
          recoverByScan blake3 digest other load image cause := by
  refine ⟨fun candidates distinct order => ?_, fun blake3 σ load image cause order other => ?_⟩
  · have filled {found : Checksum} (leads : Leads digest candidates found) :
        carriers digest candidates found ≠ [] := by
      intro none
      rcases leads with ⟨only, alone, carries⟩ | ⟨two, _⟩
      · have among : only ∈ candidates.filter fun candidate =>
            (digestOf digest candidate).isSome := alone ▸ List.mem_cons_self
        have listed := (List.mem_filter.mp among).1
        exact absurd (mem_carriers.mpr ⟨listed, carries⟩) (none ▸ List.not_mem_nil)
      · rw [none] at two
        exact absurd two (Nat.not_succ_le_zero 1)
    have leader {found : Checksum} (leads : Leads digest candidates found) :
        footerConsensus digest order candidates = carriers digest candidates found := by
      rcases footerConsensus_cases distinct order with ⟨third, also, same⟩ | ⟨_, no_leader⟩
      · rw [same, leads_unique leads also]
      · exact absurd leads (no_leader found)
    refine ⟨fun found leads => ⟨leader leads, ?_⟩, fun empty found leads => ?_, fun no_leader => ?_⟩
    · rw [leader leads]
      exact filled leads
    · exact filled leads ((leader leads).symm.trans empty)
    · rcases footerConsensus_cases distinct order with ⟨third, also, _⟩ | ⟨empty, _⟩
      · exact absurd also (no_leader third)
      · exact empty
  · unfold recoverByScan
    cases scan : scanForFooterCandidates blake3 image.data with
    | err error => rfl
    | panic => rfl
    | ok scanned =>
        have distinct := scanned_distinct blake3 scan
        have unanchored : ((scanned.filter fun candidate =>
            !matchesContract digest image.header candidate).map (·.offset)).Nodup :=
          distinct.sublist (List.filter_sublist.map _)
        have same : candidatesFor digest order image.header scanned =
            candidatesFor digest other image.header scanned := by
          unfold candidatesFor
          dsimp only
          rw [footerConsensus_order digest order unanchored other]
        rw [Outcome.ok_bind, Outcome.ok_bind, same]

end Valise
