import Valise.Library.Runs
import Valise.QueryArena

/-!
The arena of a thread over all the queries that it runs: any frame counts, any additions, and
generations that start over.
-/

namespace Valise

open Runs

namespace QueryArena

variable {K : Type}

/-- What was added for a frame, in order. -/
def deltasAt (added : List (Nat × K)) (idx : Nat) : List K :=
  (added.filter (·.1 = idx)).map Prod.snd

section Sums

variable [Add K]

/-- The sum from the first delta on. -/
def runningSum : List K → Option K
  | [] => none
  | delta :: rest => some (rest.foldl (· + ·) delta)

theorem runningSum_append (deltas : List K) (delta : K) :
    runningSum (deltas ++ [delta]) = some ((runningSum deltas).elim delta (· + delta)) := by
  cases deltas with
  | nil => rfl
  | cons first rest =>
      rw [List.cons_append, runningSum, List.foldl_append]
      rfl

/-- The touched frames are those that the query added to, each once, in the order in which it first
added to them, and the score of each is the sum of what this query added for it. -/
structure Isolated (added : List (Nat × K)) (arena : QueryArena K) : Prop where
  touched : arena.touched.map UInt32.toNat = (added.map Prod.fst).eraseDups
  scores : ∀ idx ∈ added.map Prod.fst, arena.scores[idx]? = runningSum (deltasAt added idx)

/-- What holds of an arena whatever the frames are: the touched ones are noted in 32 bits. -/
structure Tracks (added : List (Nat × K)) (arena : QueryArena K) : Prop where
  sound : arena.Sound
  live : ∀ idx, arena.Live idx ↔ idx ∈ added.map Prod.fst
  touched : arena.touched = (added.map Prod.fst).eraseDups.map UInt32.ofNat
  scores : ∀ idx ∈ added.map Prod.fst, arena.scores[idx]? = runningSum (deltasAt added idx)

end Sums

/-! ### Threads -/

/-- An arena, and what the query that is running has added to it. -/
structure Thread (K : Type) where
  arena : QueryArena K := {}
  added : List (Nat × K) := []

section Steps

variable [Zero K] [Add K]

/-- An addition outside the buffers panics before it changes anything. -/
inductive Thread.Step (before : Thread K) : Thread K → Prop
  | query (nFrames : Nat) : Thread.Step before ⟨before.arena.beginQuery nFrames, []⟩
  | add (idx : Nat) (delta : K) : idx < before.arena.docGenerations.length →
      Thread.Step before ⟨before.arena.accumulate idx delta, before.added ++ [(idx, delta)]⟩

abbrev Thread.Reached (thread : Thread K) : Prop := Reachable (· = {}) Thread.Step thread

end Steps

theorem deltasAt_append (added : List (Nat × K)) (idx place : Nat) (delta : K) :
    deltasAt (added ++ [(idx, delta)]) place =
      if idx = place then deltasAt added place ++ [delta] else deltasAt added place := by
  unfold deltasAt
  rw [List.filter_append, List.map_append]
  split
  · rename_i same
    rw [List.filter_cons_of_pos (by simpa using same)]
    rfl
  · rename_i other
    rw [List.filter_cons_of_neg (by simpa using other)]
    exact List.append_nil _

theorem deltasAt_absent {added : List (Nat × K)} {idx : Nat} (new : idx ∉ added.map Prod.fst) :
    deltasAt added idx = [] := by
  unfold deltasAt
  rw [List.filter_eq_nil_iff.mpr]
  · rfl
  · intro item member same
    exact new (List.mem_map.mpr ⟨item, member, of_decide_eq_true same⟩)

theorem eraseDups_append_singleton (indices : List Nat) (idx : Nat) :
    (indices ++ [idx]).eraseDups =
      if idx ∈ indices then indices.eraseDups else indices.eraseDups ++ [idx] := by
  rw [List.eraseDups_append]
  split
  · rename_i known
    simp [List.removeAll, known]
  · rename_i new
    have kept : [idx].removeAll indices = [idx] := by simp [List.removeAll, new]
    rw [kept]
    rfl

section Runs

variable [Add K]

theorem Begun.tracks {nFrames : Nat} {arena : QueryArena K} (begun : arena.Begun nFrames) :
    arena.Tracks [] :=
  ⟨begun.sound, fun idx => ⟨fun live => absurd live (begun.dead idx), nofun⟩, begun.touched, nofun⟩

theorem Tracks.accumulate {added : List (Nat × K)} {arena : QueryArena K}
    (tracks : arena.Tracks added) {idx : Nat} (inside : idx < arena.docGenerations.length)
    (delta : K) : (arena.accumulate idx delta).Tracks (added ++ [(idx, delta)]) := by
  have indices : (added ++ [(idx, delta)]).map Prod.fst = added.map Prod.fst ++ [idx] := by simp
  refine ⟨tracks.sound.accumulate idx delta, fun place => ?_, ?_, fun place member => ?_⟩
  · rw [accumulate_live inside, tracks.live, indices, List.mem_append, List.mem_singleton]
  · rw [accumulate_touched, indices, eraseDups_append_singleton, tracks.touched]
    by_cases known : arena.Live idx
    · rw [if_pos known, if_pos ((tracks.live idx).mp known)]
    · rw [if_neg known, if_neg (known ∘ (tracks.live idx).mpr), List.map_append]
      rfl
  · rw [deltasAt_append]
    by_cases here : idx = place
    · subst here
      rw [if_pos rfl, runningSum_append]
      by_cases known : arena.Live idx
      · have sum := tracks.scores idx ((tracks.live idx).mp known)
        have held : idx < arena.scores.length := tracks.sound.lengths ▸ inside
        rw [List.getElem?_eq_getElem held] at sum
        rw [accumulate_score (List.getElem?_eq_getElem held), if_pos known, ← sum]
        rfl
      · have held : idx < arena.scores.length := tracks.sound.lengths ▸ inside
        rw [accumulate_score (List.getElem?_eq_getElem held), if_neg known,
          deltasAt_absent (known ∘ (tracks.live idx).mpr)]
        rfl
    · rw [if_neg here, accumulate_other here]
      rw [indices, List.mem_append, List.mem_singleton] at member
      exact tracks.scores place (member.resolve_right (Ne.symm here))

/-- Frames are noted as they are just where 32 bits are enough for them. -/
theorem Tracks.isolated_iff {added : List (Nat × K)} {arena : QueryArena K}
    (tracks : arena.Tracks added) : arena.Isolated added ↔ ∀ item ∈ added, item.1 < 2 ^ 32 := by
  have noted : arena.touched.map UInt32.toNat =
      (added.map Prod.fst).eraseDups.map (· % 2 ^ 32) := by
    rw [tracks.touched, List.map_map]
    exact List.map_congr_left fun idx _ => UInt32.toNat_ofNat'
  constructor
  · intro isolated item member
    have same := noted.symm.trans isolated.touched
    have listed : item.1 ∈ (added.map Prod.fst).eraseDups :=
      List.mem_eraseDups.mpr (List.mem_map_of_mem member)
    have kept := List.map_inj_left.mp (same.trans (List.map_id _).symm) item.1 listed
    exact Nat.mod_eq_iff_lt (by decide) |>.mp kept
  · intro small
    refine ⟨noted.trans ?_, tracks.scores⟩
    refine (List.map_congr_left fun idx listed => ?_).trans (List.map_id _)
    obtain ⟨item, member, rfl⟩ := List.mem_map.mp (List.mem_eraseDups.mp listed)
    exact Nat.mod_eq_of_lt (small item member)

variable [Zero K] {thread : Thread K}

theorem Thread.Reached.tracks (reached : thread.Reached) : thread.arena.Tracks thread.added := by
  refine @Reachable.invariant _ _ _ (fun thread => thread.arena.Tracks thread.added) ?_ ?_ _ reached
  · rintro _ rfl
    exact ⟨empty_sound, fun idx => ⟨nofun, nofun⟩, rfl, nofun⟩
  · intro before after tracks step
    cases step with
    | query nFrames => exact (tracks.sound.begun nFrames).tracks
    | add idx delta inside => exact tracks.accumulate inside delta

/-- However many queries a thread has run, the one that is running sees its own additions only, as
long as every index fits in the 32 bits of the touched list. -/
theorem arena_isolated_iff (reached : thread.Reached) :
    thread.arena.Isolated thread.added ↔ ∀ item ∈ thread.added, item.1 < 2 ^ 32 :=
  reached.tracks.isolated_iff

end Runs

/-! The second query finds the slots of the first one. -/

def secondQuery : Thread Nat :=
  let first := (({} : QueryArena Nat).beginQuery 8).accumulate 3 7
  ⟨(((first.beginQuery 4).accumulate 3 1).accumulate 2 5).accumulate 3 1, [(3, 1), (2, 5), (3, 1)]⟩

theorem secondQuery_isolated : secondQuery.arena.Isolated secondQuery.added := by
  have reached : secondQuery.Reached :=
    .step (.step (.step (.step (.step (.step (.start rfl) (.query 8)) (.add 3 7 (by decide)))
      (.query 4)) (.add 3 1 (by decide))) (.add 2 5 (by decide))) (.add 3 1 (by decide))
  exact (arena_isolated_iff reached).mpr (by decide)

/-! A frame that does not fit in 32 bits is noted as another one. -/

theorem not_isolated_of_wide {frame : Nat} (wide : 2 ^ 32 ≤ frame) :
    ∃ thread : Thread Nat, thread.Reached ∧ ¬thread.arena.Isolated thread.added := by
  have begun := (empty_sound (K := Nat)).begun (frame + 1)
  have inside : frame < (({} : QueryArena Nat).beginQuery (frame + 1)).docGenerations.length := by
    rw [begun.sound.lengths]
    exact begun.room
  have reached : Thread.Reached (K := Nat) ⟨_, [] ++ [(frame, 1)]⟩ :=
    .step (.step (.start rfl) (.query (frame + 1))) (.add frame 1 inside)
  refine ⟨_, reached, fun isolated => ?_⟩
  have small := reached.tracks.isolated_iff.mp isolated
  exact absurd (small (frame, 1) (List.mem_singleton_self _)) (Nat.not_lt.mpr wide)

theorem isolated_fails :
    ∃ thread : Thread Nat, thread.Reached ∧ ¬thread.arena.Isolated thread.added :=
  not_isolated_of_wide (Nat.le_refl (2 ^ 32))

end QueryArena

end Valise
