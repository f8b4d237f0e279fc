import Valise.Bm25
import Valise.Library.Binary32

/-!
The best of the touched frames by floats: the sort of all of them, and the bounded heap.
-/

namespace Valise.TopKSelection

open Binary32 Outcomes Outcomes.Outcome TopKs

/-- The end of the 64 bits of a count. -/
def usizeMax : Nat := 2 ^ 64 - 1

/-- The heap's order: a worse entry is greater. -/
def HeapEntry.cmp (self other : Hit Single) : Ordering :=
  (compare other.score.bits self.score.bits).then (compare self.frameId other.frameId)

def Entry.cmp (self other : Hit Single) : Ordering :=
  ((other.score.partialCmp self.score).getD .eq).then (compare self.frameId other.frameId)

/-- The hits of the frames whose score is not left out; a frame without a score aborts. -/
def collectHits (skip : Single → Bool) (scores : List Single) : List UInt32 → Result (List (Hit Single))
  | [] => .ok []
  | frame :: rest =>
      match scores[frame.toNat]? with
      | none => .panic
      | some score => do
          let hits ← collectHits skip scores rest
          .ok (if skip score then hits else ⟨UInt64.ofNat frame.toNat, score⟩ :: hits)

/-- All hits are sorted when there is room for them; otherwise a heap keeps the best. -/
def selectFromTouched (skipSorted skipHeap : Single → Bool) (cmp : Hit Single → Hit Single → Ordering)
    (touched : List UInt32) (scores : List Single) (topK : Option Nat) : Result (List (Hit Single)) :=
  let cap := topK.getD usizeMax
  if cap = 0 ∨ touched = [] then .ok []
  else if touched.length ≤ cap then do
    let hits ← collectHits skipSorted scores touched
    .ok (hits.insertionSort (cmp · · = .lt))
  else do
    let entries ← collectHits skipHeap scores touched
    .ok ((boundedTop (cmp · · = .lt) cap entries).insertionSort (cmp · · = .lt))

def selectTopKFromTouched :=
  selectFromTouched Single.isZero Single.atMostZero HeapEntry.cmp

def selectTopKFromTouchedSigned :=
  selectFromTouched Single.isZero Single.isZero Entry.cmp

/-! ### The best by definition -/

def Outranks (first second : Hit Single) : Prop :=
  second.score.value < first.score.value ∨
    first.score.value = second.score.value ∧ first.frameId.toNat < second.frameId.toNat

instance (first second : Hit Single) : Decidable (Outranks first second) :=
  inferInstanceAs (Decidable (_ ∨ _))

def scoredHits (touched : List UInt32) (scores : List Single) : List (Hit Single) :=
  touched.filterMap fun frame =>
    match scores[frame.toNat]? with
    | none => none
    | some score => if score.value = 0 then none else some ⟨UInt64.ofNat frame.toNat, score⟩

/-- Without a `top_k` every hit is returned. -/
def bestHits (touched : List UInt32) (scores : List Single) (topK : Option Nat) : List (Hit Single) :=
  let sorted := (scoredHits touched scores).insertionSort Outranks
  match topK with
  | none => sorted
  | some k => sorted.take k

/-! ### Both orders are that of the values -/

/-- All floats in one order, the bits of the negative ones downwards. -/
def rank (x : Single) : Int := if x.negative then -(x.low : Int) - 1 else x.low

theorem rank_injective : Function.Injective rank := by
  intro first second same
  unfold rank at same
  refine Single.eq_of_low ?_ ?_
  · cases left : first.negative <;> cases right : second.negative <;>
      simp only [left, right, if_true, Bool.false_eq_true, if_false] at same
    all_goals first | rfl | omega
  · split at same <;> split at same <;> omega

def ByRank (first second : Hit Single) : Prop :=
  rank second.score < rank first.score ∨
    rank first.score = rank second.score ∧ first.frameId.toNat < second.frameId.toNat

instance (first second : Hit Single) : Decidable (ByRank first second) :=
  inferInstanceAs (Decidable (_ ∨ _))

theorem byRank_ranks : Ranks ByRank := by
  constructor
  · intro item
    unfold ByRank
    omega
  · intro first second third ahead behind
    unfold ByRank at *
    omega
  · intro first second apart
    unfold ByRank
    have differ : ¬(rank first.score = rank second.score ∧
        first.frameId.toNat = second.frameId.toNat) := by
      rintro ⟨score, frame⟩
      refine apart ?_
      cases first
      cases second
      congr 1
      · exact UInt64.toNat_inj.mp frame
      · exact rank_injective score
    omega

theorem value_lt_iff {first second : Single} (left : first.value ≠ 0) (right : second.value ≠ 0) :
    first.value < second.value ↔ rank first < rank second := by
  have positive {x : Single} (nonzero : x.value ≠ 0) : 0 < magnitude x.low := by
    unfold Single.value at nonzero
    split at nonzero <;> omega
  have less := @magnitude_lt_iff first.low second.low
  have more := @magnitude_lt_iff second.low first.low
  have := positive left
  have := positive right
  unfold Single.value rank
  split <;> split <;> omega

theorem outranks_iff {first second : Hit Single} (left : first.score.value ≠ 0)
    (right : second.score.value ≠ 0) : Outranks first second ↔ ByRank first second := by
  have less := value_lt_iff left right
  have more := value_lt_iff right left
  unfold Outranks ByRank
  omega

theorem heapEntry_cmp_iff {first second : Hit Single} (left : 0 < first.score.value)
    (right : 0 < second.score.value) :
    HeapEntry.cmp first second = .lt ↔ ByRank first second := by
  have same : second.score.bits = first.score.bits ↔ first.score.value = second.score.value := by
    constructor
    · intro same
      exact congrArg Single.value (Single.ext same.symm)
    · intro same
      rw [Single.eq_of_value left.ne' same]
  rw [← outranks_iff left.ne' right.ne']
  unfold HeapEntry.cmp Outranks
  rw [Ordering.then_eq_lt, Std.compare_eq_lt, Std.compare_eq_lt,
    Std.LawfulEqOrd.compare_eq_iff_eq, same, UInt64.lt_iff_toNat_lt,
    Single.bits_lt_iff (Single.negative_of_value right) (Single.negative_of_value left)]

theorem entry_cmp_iff {first second : Hit Single} (left : first.score.value ≠ 0)
    (right : second.score.value ≠ 0) (number : first.score.isNaN = false)
    (also : second.score.isNaN = false) : Entry.cmp first second = .lt ↔ ByRank first second := by
  rw [← outranks_iff left right]
  unfold Entry.cmp Outranks Single.partialCmp
  rw [number, also]
  simp only [Bool.or_self, Bool.false_eq_true, if_false, Option.getD_some]
  rw [Ordering.then_eq_lt, Std.compare_eq_lt, Std.compare_eq_lt,
    Std.LawfulEqOrd.compare_eq_iff_eq, UInt64.lt_iff_toNat_lt, eq_comm (a := second.score.value)]

/-! ### The two paths -/

variable {touched : List UInt32} {scores : List Single}

/-- Every touched frame has a score, and the score is `Fit`. -/
def Scored (Fit : Single → Prop) (touched : List UInt32) (scores : List Single) : Prop :=
  ∀ frame ∈ touched, ∃ score, scores[frame.toNat]? = some score ∧ Fit score

theorem collectHits_eq {skip : Single → Bool} {Fit : Single → Prop}
    (skips : ∀ score, Fit score → (skip score = true ↔ score.value = 0))
    (scored : Scored Fit touched scores) :
    collectHits skip scores touched = .ok (scoredHits touched scores) := by
  induction touched with
  | nil => rfl
  | cons frame rest ih =>
      obtain ⟨score, found, fit⟩ := scored frame (List.mem_cons_self ..)
      have rest := ih fun frame member => scored frame (List.mem_cons_of_mem _ member)
      have decided := skips score fit
      unfold collectHits scoredHits
      rw [found, rest]
      simp only [ok_bind, List.filterMap_cons, found]
      by_cases zero : score.value = 0
      · rw [decided.mpr zero, if_pos zero]
        rfl
      · rw [if_neg zero, if_neg fun skipped => zero (decided.mp skipped)]
        rfl

theorem scoredHits_spec {Fit : Single → Prop} (scored : Scored Fit touched scores)
    {hit : Hit Single} (member : hit ∈ scoredHits touched scores) :
    hit.score.value ≠ 0 ∧ Fit hit.score := by
  obtain ⟨frame, touched, kept⟩ := List.mem_filterMap.mp member
  obtain ⟨score, found, fit⟩ := scored frame touched
  rw [found] at kept
  dsimp only at kept
  split at kept
  · exact nomatch kept
  · rename_i nonzero
    obtain rfl := Option.some.inj kept
    exact ⟨nonzero, fit⟩

theorem scoredHits_nodup (nodup : touched.Nodup) : (scoredHits touched scores).Nodup := by
  refine nodup.filterMap ?_
  intro first second hit left right
  have frame {other : UInt32} (kept : hit ∈ (match scores[other.toNat]? with
      | none => none
      | some score => if score.value = 0 then none else
        some (⟨UInt64.ofNat other.toNat, score⟩ : Hit Single))) :
      hit.frameId.toNat = other.toNat := by
    have bound := other.toNat_lt
    split at kept
    · exact nomatch kept
    · split at kept
      · exact nomatch kept
      · obtain rfl := Option.some.inj kept
        exact Nat.mod_eq_of_lt (by omega)
  exact UInt32.toNat_inj.mp ((frame left).symm.trans (frame right))

/-- A list of different 32-bit ids is shorter than any count that stands for none. -/
theorem length_le_usizeMax (nodup : touched.Nodup) : touched.length ≤ usizeMax :=
  (words_length nodup).trans (by decide)

theorem scoredHits_length : (scoredHits touched scores).length ≤ touched.length :=
  List.length_filterMap_le _ _

/-- Whichever path runs, the best hits come out in order. -/
theorem selectFromTouched_eq {skipSorted skipHeap : Single → Bool}
    {cmp : Hit Single → Hit Single → Ordering} {Fit : Single → Prop}
    (sorted : ∀ score, Fit score → (skipSorted score = true ↔ score.value = 0))
    (heap : ∀ score, Fit score → (skipHeap score = true ↔ score.value = 0))
    (ordered : ∀ first second : Hit Single, first.score.value ≠ 0 → second.score.value ≠ 0 →
      Fit first.score → Fit second.score → (cmp first second = .lt ↔ ByRank first second))
    (nodup : touched.Nodup) (scored : Scored Fit touched scores) (topK : Option Nat) :
    selectFromTouched skipSorted skipHeap cmp touched scores topK =
      .ok (bestHits touched scores topK) := by
  let items := scoredHits touched scores
  have distinct : items.Nodup := scoredHits_nodup nodup
  have agree : ∀ first ∈ items, ∀ second ∈ items,
      cmp first second = .lt ↔ ByRank first second := by
    intro first left second right
    have left := scoredHits_spec scored left
    have right := scoredHits_spec scored right
    exact ordered first second left.1 right.1 left.2 right.2
  have ranked : bestHits touched scores topK = match topK with
      | none => items.insertionSort ByRank
      | some k => (items.insertionSort ByRank).take k := by
    unfold bestHits
    rw [insertionSort_congr fun first left second right =>
      outranks_iff (scoredHits_spec scored left).1 (scoredHits_spec scored right).1]
  have short : (items.insertionSort ByRank).length ≤ touched.length :=
    (List.perm_insertionSort ..).length_eq.trans_le scoredHits_length
  rw [ranked]
  unfold selectFromTouched
  dsimp only
  split
  · rename_i empty
    have none : topK = some 0 ∨ touched = [] := by
      refine empty.imp_left fun zero => ?_
      cases topK with
      | none => exact absurd zero (by decide)
      | some k => exact congrArg some zero
    rcases none with rfl | rfl
    · rfl
    · cases topK with
      | none => rfl
      | some k => exact congrArg Outcome.ok List.take_nil.symm
  · rename_i some
    rw [not_or] at some
    split
    · rename_i room
      rw [collectHits_eq sorted scored]
      simp only [ok_bind]
      rw [insertionSort_congr agree]
      cases topK with
      | none => rfl
      | some k => exact congrArg Outcome.ok (List.take_of_length_le (short.trans room)).symm
    · rename_i noRoom
      cases topK with
      | none => exact absurd (length_le_usizeMax nodup) noRoom
      | some k =>
          rw [collectHits_eq heap scored]
          simp only [ok_bind, Option.getD_some]
          have top := boundedTop_isTop byRank_ranks (Nat.pos_of_ne_zero some.1) distinct
          have kept : ∀ hit ∈ boundedTop ByRank k items, hit ∈ items :=
            fun _ => boundedTop_subset
          rw [boundedTop_congr agree, insertionSort_congr fun first left second right =>
            agree first (kept first left) second (kept second right)]
          exact congrArg Outcome.ok ((top.sort byRank_ranks).eq_take byRank_ranks distinct)

theorem bestHits_perm {Fit : Single → Prop} {other : List UInt32} (nodup : touched.Nodup)
    (scored : Scored Fit touched scores) (same : other.Perm touched) (topK : Option Nat) :
    bestHits other scores topK = bestHits touched scores topK := by
  have items : (scoredHits other scores).Perm (scoredHits touched scores) := same.filterMap _
  have agree : ∀ first ∈ scoredHits touched scores, ∀ second ∈ scoredHits touched scores,
      Outranks first second ↔ ByRank first second := fun first left second right =>
    outranks_iff (scoredHits_spec scored left).1 (scoredHits_spec scored right).1
  have sorted : (scoredHits other scores).insertionSort Outranks =
      (scoredHits touched scores).insertionSort Outranks := by
    rw [insertionSort_congr agree, insertionSort_congr fun first left second right =>
      agree first (items.mem_iff.mp left) second (items.mem_iff.mp right)]
    refine byRank_ranks.eq_of_perm ?_ (byRank_ranks.insertionSort (scoredHits_nodup
      (same.nodup_iff.mpr nodup))) (byRank_ranks.insertionSort (scoredHits_nodup nodup))
    exact ((List.perm_insertionSort ..).trans items).trans (List.perm_insertionSort ..).symm
  unfold bestHits
  rw [sorted]

theorem isZero_iff {score : Single} (finite : score.isFinite = true) :
    score.isZero = true ↔ score.value = 0 := by
  have number := Single.isNaN_of_isFinite finite
  simp [Single.isZero, number]

theorem atMostZero_iff {score : Single} (fit : score.isFinite = true ∧ 0 ≤ score.value) :
    score.atMostZero = true ↔ score.value = 0 := by
  have number := Single.isNaN_of_isFinite fit.1
  have positive := fit.2
  simp only [Single.atMostZero, number, Bool.not_false, Bool.true_and, decide_eq_true_eq]
  omega

/-- The bounded selection has what the full sort begins with: for scores that are not negative, and
with the signed variant for all. The order in which the frames were touched does not matter. -/
theorem selectTopK_exact (touched : List UInt32) (scores : List Single) (topK : Option Nat)
    (nodup : touched.Nodup) (scored : Scored (·.isFinite = true) touched scores) :
    (Scored (0 ≤ ·.value) touched scores →
      selectTopKFromTouched touched scores topK = .ok (bestHits touched scores topK)) ∧
    selectTopKFromTouchedSigned touched scores topK = .ok (bestHits touched scores topK) ∧
    ∀ other : List UInt32, other.Perm touched →
      (Scored (0 ≤ ·.value) touched scores → selectTopKFromTouched other scores topK =
        selectTopKFromTouched touched scores topK) ∧
      selectTopKFromTouchedSigned other scores topK =
        selectTopKFromTouchedSigned touched scores topK := by
  have unsigned {touched : List UInt32} (nodup : touched.Nodup)
      (scored : Scored (·.isFinite = true) touched scores)
      (positive : Scored (0 ≤ ·.value) touched scores) :
      selectTopKFromTouched touched scores topK = .ok (bestHits touched scores topK) := by
    have both : Scored (fun score => score.isFinite = true ∧ 0 ≤ score.value) touched scores := by
      intro frame member
      obtain ⟨score, found, finite⟩ := scored frame member
      obtain ⟨_, again, positive⟩ := positive frame member
      obtain rfl := Option.some.inj (found.symm.trans again)
      exact ⟨score, found, finite, positive⟩
    refine selectFromTouched_eq (fun _ fit => isZero_iff fit.1) (fun _ => atMostZero_iff) ?_ nodup
      both topK
    intro first second left right fit also
    exact heapEntry_cmp_iff (lt_of_le_of_ne fit.2 left.symm) (lt_of_le_of_ne also.2 right.symm)
  have signed {touched : List UInt32} (nodup : touched.Nodup)
      (scored : Scored (·.isFinite = true) touched scores) :
      selectTopKFromTouchedSigned touched scores topK = .ok (bestHits touched scores topK) := by
    refine selectFromTouched_eq (fun _ => isZero_iff) (fun _ => isZero_iff) ?_ nodup scored topK
    intro first second left right fit also
    exact entry_cmp_iff left right (Single.isNaN_of_isFinite fit) (Single.isNaN_of_isFinite also)
  have moved {Fit : Single → Prop} {other : List UInt32} (same : other.Perm touched)
      (scored : Scored Fit touched scores) : Scored Fit other scores :=
    fun frame member => scored frame (same.mem_iff.mp member)
  refine ⟨unsigned nodup scored, signed nodup scored, fun other same => ⟨fun positive => ?_, ?_⟩⟩
  · rw [unsigned nodup scored positive, unsigned (same.nodup_iff.mpr nodup) (moved same scored)
      (moved same positive), bestHits_perm nodup scored same]
  · rw [signed nodup scored, signed (same.nodup_iff.mpr nodup) (moved same scored),
      bestHits_perm nodup scored same]

/-- The scores 0, -1, 2 and 2; the first two are finite and only the second is negative. -/
def fourScores : List Single := [⟨0⟩, ⟨0xbf800000⟩, ⟨0x40000000⟩, ⟨0x40000000⟩]

theorem selectTopK_four :
    (selectTopKFromTouched [3, 0, 2] fourScores (some 1) = .ok (bestHits [3, 0, 2] fourScores (some 1))) ∧
    selectTopKFromTouchedSigned [3, 0, 1, 2] fourScores (some 2) =
      .ok [⟨2, ⟨0x40000000⟩⟩, ⟨3, ⟨0x40000000⟩⟩] := by
  have three : Scored (·.isFinite = true) [3, 0, 2] fourScores := by
    simp [Scored, fourScores, Single.isFinite, Single.low]
  have positive : Scored (0 ≤ ·.value) [3, 0, 2] fourScores := by
    simp [Scored, fourScores, Single.value, Single.negative]
  have four : Scored (·.isFinite = true) [3, 0, 1, 2] fourScores := by
    simp [Scored, fourScores, Single.isFinite, Single.low]
  refine ⟨(selectTopK_exact _ _ _ (by decide) three).1 positive, ?_⟩
  rw [(selectTopK_exact _ _ _ (by decide) four).2.1]
  rfl

end Valise.TopKSelection
