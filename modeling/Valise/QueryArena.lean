import Valise.Library.Numerals

/-!
The scratch arena of a scorer: a score for each frame, stamped with the generation of the query that
wrote it, so that what earlier queries left behind counts as zero.
-/

namespace Valise

/-- Different words are no more than there are words. -/
theorem words_length {ids : List UInt32} (distinct : ids.Nodup) : ids.length ≤ 2 ^ 32 := by
  have numbers : (ids.map UInt32.toNat).Nodup :=
    distinct.map fun first second same => UInt32.toNat_inj.mp same
  have inside : ids.map UInt32.toNat ⊆ List.range (2 ^ 32) := by
    intro number member
    obtain ⟨id, _, rfl⟩ := List.mem_map.mp member
    exact List.mem_range.mpr id.toNat_lt
  have bound := (List.subperm_of_subset numbers inside).length_le
  rwa [List.length_range, List.length_map] at bound

structure QueryArena (K : Type) where
  scores : List K := []
  docGenerations : List UInt32 := []
  generation : UInt32 := 0
  touched : List UInt32 := []

namespace QueryArena

variable {K : Type}

section Arena

variable [Zero K] [Add K]

def resize {α : Type} (length : Nat) (fill : α) (items : List α) : List α :=
  items ++ List.replicate (length - items.length) fill

/-- The buffers grow, and never shrink. -/
def grow (arena : QueryArena K) (nFrames : Nat) : QueryArena K :=
  if arena.scores.length < nFrames then
    { arena with
      scores := resize nFrames 0 arena.scores
      docGenerations := resize nFrames 0 arena.docGenerations }
  else arena

def lastGeneration : UInt32 := 0xFFFFFFFF

/-- The stamps are cleared when the generations start over. -/
def beginQuery (arena : QueryArena K) (nFrames : Nat) : QueryArena K :=
  let arena := { arena.grow nFrames with touched := [] }
  if arena.generation = lastGeneration then
    { arena with
      docGenerations := arena.docGenerations.map fun _ => 0
      generation := 1 }
  else { arena with generation := arena.generation + 1 }

def accumulate (arena : QueryArena K) (idx : Nat) (delta : K) : QueryArena K :=
  if arena.docGenerations[idx]? = some arena.generation then
    { arena with scores := arena.scores.modify idx (· + delta) }
  else
    { arena with
      docGenerations := arena.docGenerations.set idx arena.generation
      scores := arena.scores.set idx delta
      touched := arena.touched ++ [UInt32.ofNat idx] }

end Arena

/-- No stamp is ahead of the generation. -/
structure Sound (arena : QueryArena K) : Prop where
  lengths : arena.docGenerations.length = arena.scores.length
  stamps : ∀ stamp ∈ arena.docGenerations, stamp ≤ arena.generation

/-- The query has added something for the frame. -/
def Live (arena : QueryArena K) (idx : Nat) : Prop :=
  arena.docGenerations[idx]? = some arena.generation

instance (arena : QueryArena K) (idx : Nat) : Decidable (arena.Live idx) :=
  inferInstanceAs (Decidable (_ = _))

theorem empty_sound : ({} : QueryArena K).Sound := ⟨rfl, nofun⟩

/-! ### What one call does -/

section Calls

variable {arena : QueryArena K}

theorem Sound.grow [Zero K] (sound : arena.Sound) (nFrames : Nat) :
    (arena.grow nFrames).Sound ∧ nFrames ≤ (arena.grow nFrames).scores.length := by
  unfold QueryArena.grow
  split
  · rename_i short
    refine ⟨⟨?_, ?_⟩, ?_⟩
    · simp [resize, sound.lengths]
    · intro stamp member
      rcases List.mem_append.mp member with old | fresh
      · exact sound.stamps stamp old
      · rw [List.eq_of_mem_replicate fresh]
        exact UInt32.zero_le
    · simp [resize]
      omega
  · rename_i enough
    exact ⟨sound, Nat.le_of_not_lt enough⟩

theorem lt_succ_generation {generation : UInt32} (more : generation ≠ lastGeneration) :
    generation < generation + 1 := by
  have bound := generation.toNat_lt
  have different : generation.toNat ≠ 4294967295 := fun same =>
    more (UInt32.toNat_inj.mp same)
  rw [UInt32.lt_iff_toNat_lt, UInt32.toNat_add]
  change _ < (generation.toNat + 1) % 2 ^ 32
  omega

/-- Whatever earlier queries left behind, a query begins with nothing added. -/
structure Begun (nFrames : Nat) (arena : QueryArena K) : Prop where
  sound : arena.Sound
  room : nFrames ≤ arena.scores.length
  dead : ∀ idx, ¬arena.Live idx
  touched : arena.touched = []

theorem Sound.begun [Zero K] (sound : arena.Sound) (nFrames : Nat) :
    (arena.beginQuery nFrames).Begun nFrames := by
  obtain ⟨grown, room⟩ := sound.grow nFrames
  -- No stamp is the new generation.
  have start (stamps : List UInt32) (generation : UInt32)
      (behind : ∀ stamp ∈ stamps, stamp < generation)
      (lengths : stamps.length = (arena.grow nFrames).scores.length) :
      Begun nFrames ({ arena.grow nFrames with
        docGenerations := stamps, generation, touched := [] } : QueryArena K) := by
    refine ⟨⟨lengths, fun stamp member => UInt32.le_of_lt (behind stamp member)⟩, room, ?_, rfl⟩
    intro idx live
    exact absurd (behind _ (List.mem_of_getElem? live)) (UInt32.lt_irrefl _)
  unfold QueryArena.beginQuery
  dsimp only
  split
  · refine start _ 1 ?_ ((List.length_map _).trans grown.lengths)
    intro stamp member
    obtain ⟨_, _, rfl⟩ := List.mem_map.mp member
    decide
  · rename_i more
    refine start _ _ ?_ grown.lengths
    intro stamp member
    exact UInt32.lt_of_le_of_lt (grown.stamps stamp member) (lt_succ_generation more)

variable [Add K]

theorem accumulate_of_live {idx : Nat} (live : arena.Live idx) (delta : K) :
    arena.accumulate idx delta = { arena with scores := arena.scores.modify idx (· + delta) } :=
  if_pos live

theorem accumulate_of_dead {idx : Nat} (dead : ¬arena.Live idx) (delta : K) :
    arena.accumulate idx delta = { arena with
      docGenerations := arena.docGenerations.set idx arena.generation
      scores := arena.scores.set idx delta
      touched := arena.touched ++ [UInt32.ofNat idx] } :=
  if_neg dead

theorem accumulate_generation (idx : Nat) (delta : K) :
    (arena.accumulate idx delta).generation = arena.generation := by
  unfold QueryArena.accumulate
  split <;> rfl

theorem accumulate_touched (idx : Nat) (delta : K) : (arena.accumulate idx delta).touched =
    if arena.Live idx then arena.touched else arena.touched ++ [UInt32.ofNat idx] := by
  by_cases live : arena.Live idx
  · rw [if_pos live, accumulate_of_live live]
  · rw [if_neg live, accumulate_of_dead live]

theorem accumulate_length (idx : Nat) (delta : K) :
    (arena.accumulate idx delta).scores.length = arena.scores.length := by
  unfold QueryArena.accumulate
  split
  · exact List.length_modify ..
  · exact List.length_set

theorem Sound.accumulate (sound : arena.Sound) (idx : Nat) (delta : K) :
    (arena.accumulate idx delta).Sound := by
  refine ⟨?_, fun stamp member => ?_⟩
  · rw [accumulate_length, ← sound.lengths]
    unfold QueryArena.accumulate
    split
    · rfl
    · exact List.length_set
  · rw [accumulate_generation]
    unfold QueryArena.accumulate at member
    split at member
    · exact sound.stamps stamp member
    · rcases List.mem_or_eq_of_mem_set member with old | rfl
      · exact sound.stamps stamp old
      · exact UInt32.le_refl _

/-- Only the slot that is added to comes to life. -/
theorem accumulate_live {idx : Nat} (inside : idx < arena.docGenerations.length) (delta : K)
    (place : Nat) : (arena.accumulate idx delta).Live place ↔ arena.Live place ∨ place = idx := by
  unfold Live
  rw [accumulate_generation]
  unfold QueryArena.accumulate
  split
  · rename_i live
    refine (or_iff_left_of_imp ?_).symm
    rintro rfl
    exact live
  · rw [List.getElem?_set]
    by_cases here : idx = place
    · rw [if_pos here, if_pos inside]
      simp [here]
    · rw [if_neg here]
      simp [Ne.symm here]

/-- What a slot had counts only where it is live. -/
theorem accumulate_score {idx : Nat} {score : K} (held : arena.scores[idx]? = some score)
    (delta : K) : (arena.accumulate idx delta).scores[idx]? =
      some (if arena.Live idx then score + delta else delta) := by
  have inside := (List.getElem?_eq_some_iff.mp held).1
  by_cases live : arena.Live idx
  · rw [if_pos live, accumulate_of_live live, List.getElem?_modify, held,
      Option.map_eq_map, Option.map_some, if_pos rfl]
  · rw [if_neg live, accumulate_of_dead live]
    exact List.getElem?_set_self inside

theorem accumulate_other {idx place : Nat} (other : idx ≠ place) (delta : K) :
    (arena.accumulate idx delta).scores[place]? = arena.scores[place]? := by
  unfold QueryArena.accumulate
  split
  · simp [other]
  · exact List.getElem?_set_ne other

end Calls

/-! ### Totals -/

variable [AddCommMonoid K]

/-- What was added for a frame. -/
def total (added : List (Nat × K)) (idx : Nat) : K :=
  ((added.filter (·.1 = idx)).map Prod.snd).sum

/-- The arena has the totals of what was added since the query began, and of nothing else. -/
structure Totals (nFrames : Nat) (added : List (Nat × K)) (arena : QueryArena K) : Prop where
  sound : arena.Sound
  room : nFrames ≤ arena.scores.length
  inside : ∀ item ∈ added, item.1 < nFrames
  stamped : ∀ idx, arena.docGenerations[idx]? = some arena.generation ↔ idx ∈ added.map Prod.fst
  touched : ∀ frame, frame ∈ arena.touched ↔ frame.toNat ∈ added.map Prod.fst
  nodup : arena.touched.Nodup
  scores : ∀ idx ∈ added.map Prod.fst, arena.scores[idx]? = some (total added idx)

theorem Sound.beginQuery {arena : QueryArena K} (sound : arena.Sound) (nFrames : Nat) :
    (arena.beginQuery nFrames).Totals nFrames [] := by
  obtain ⟨sound, room, dead, touched⟩ := sound.begun nFrames
  refine ⟨sound, room, nofun, fun idx => ⟨fun live => absurd live (dead idx), nofun⟩, ?_, ?_, nofun⟩
  · simp [touched]
  · rw [touched]
    exact .nil

theorem total_append (added : List (Nat × K)) (idx place : Nat) (delta : K) :
    total (added ++ [(place, delta)]) idx =
      if place = idx then total added idx + delta else total added idx := by
  unfold total
  rw [List.filter_append, List.map_append, List.sum_append]
  split
  · rename_i same
    rw [List.filter_cons_of_pos (by simpa using same)]
    simp
  · rename_i other
    rw [List.filter_cons_of_neg (by simpa using other)]
    simp

theorem total_eq_zero {added : List (Nat × K)} {idx : Nat} (new : idx ∉ added.map Prod.fst) :
    total added idx = 0 := by
  unfold total
  rw [List.filter_eq_nil_iff.mpr]
  · rfl
  · intro item member same
    exact new (List.mem_map.mpr ⟨item, member, of_decide_eq_true same⟩)

theorem Totals.accumulate {nFrames : Nat} {added : List (Nat × K)} {arena : QueryArena K}
    (totals : arena.Totals nFrames added) {idx : Nat} (inside : idx < nFrames)
    (small : nFrames ≤ 2 ^ 32) (delta : K) :
    (arena.accumulate idx delta).Totals nFrames (added ++ [(idx, delta)]) := by
  have held : idx < arena.scores.length := Nat.lt_of_lt_of_le inside totals.room
  have stamps : idx < arena.docGenerations.length := totals.sound.lengths ▸ held
  have back : (UInt32.ofNat idx).toNat = idx :=
    UInt32.toNat_ofNat_of_lt' (Nat.lt_of_lt_of_le inside small)
  have live (place : Nat) : (arena.accumulate idx delta).Live place ↔
      place ∈ (added ++ [(idx, delta)]).map Prod.fst := by
    rw [accumulate_live stamps, Live, totals.stamped place]
    simp
  refine ⟨totals.sound.accumulate idx delta, ?_, ?_, live, ?_, ?_, ?_⟩
  · rw [accumulate_length]
    exact totals.room
  · intro item member
    rcases List.mem_append.mp member with old | last
    · exact totals.inside item old
    · exact (List.mem_singleton.mp last) ▸ inside
  · intro frame
    have known : arena.Live frame.toNat ↔ frame ∈ arena.touched :=
      (totals.stamped frame.toNat).trans (totals.touched frame).symm
    rw [← live, accumulate_live stamps, accumulate_touched, known]
    split
    · rename_i already
      refine (or_iff_left_of_imp fun same => ?_).symm
      rwa [← known, same]
    · rw [List.mem_append, List.mem_singleton, ← UInt32.toNat_inj, back]
  · rw [accumulate_touched]
    split
    · exact totals.nodup
    · rename_i new
      refine List.nodup_append.mpr ⟨totals.nodup, List.nodup_singleton _, ?_⟩
      intro frame member other last same
      rw [List.mem_singleton] at last
      rw [totals.touched frame, same, last, back] at member
      exact new ((totals.stamped idx).mpr member)
  · intro place member
    rw [total_append]
    by_cases here : idx = place
    · subst here
      rw [if_pos rfl]
      by_cases known : arena.Live idx
      · rw [accumulate_score (totals.scores idx ((totals.stamped idx).mp known)), if_pos known]
      · have new : idx ∉ added.map Prod.fst := fun listed =>
          known ((totals.stamped idx).mpr listed)
        rw [accumulate_score (List.getElem?_eq_getElem held), if_neg known, total_eq_zero new,
          zero_add]
    · rw [if_neg here, accumulate_other here]
      rw [List.map_append, List.mem_append, List.map_singleton, List.mem_singleton] at member
      exact totals.scores place (member.resolve_right (Ne.symm here))

/-- Additions one after the other. -/
theorem Totals.accumulateAll {nFrames : Nat} {added : List (Nat × K)} {arena : QueryArena K}
    (totals : arena.Totals nFrames added) (small : nFrames ≤ 2 ^ 32) (items : List (Nat × K))
    (inside : ∀ item ∈ items, item.1 < nFrames) :
    (items.foldl (fun arena item => arena.accumulate item.1 item.2) arena).Totals nFrames
      (added ++ items) := by
  induction items generalizing added arena with
  | nil => rwa [List.append_nil]
  | cons item rest ih =>
      rw [List.foldl_cons, List.append_cons]
      obtain ⟨first, others⟩ := List.forall_mem_cons.mp inside
      exact ih (totals.accumulate first small item.2) others

end QueryArena

end Valise
