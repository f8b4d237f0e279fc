import Valise.Bm25

/-!
The reads of a query are a budget that its terms share by their weights, the rarest term first.
-/

namespace Valise

open ByteLists

structure BudgetTerm (K : Type) where
  termId : TermId
  idf : K
  df : UInt32

section Allocator

variable {K : Type} [LinearOrder K]

/-- The rarest term comes first. -/
def BudgetTerm.Ahead (first second : BudgetTerm K) : Prop :=
  second.idf < first.idf ∨
    first.idf = second.idf ∧ first.termId.toNat ≤ second.termId.toNat

instance (first second : BudgetTerm K) : Decidable (first.Ahead second) :=
  inferInstanceAs (Decidable (_ ∨ _))

/-- The terms get equal parts where none has a weight. -/
def equalSplit {K : Type} (share : Nat) (order : List (BudgetTerm K)) : List (TermId × Nat) :=
  order.filterMap fun term =>
    if 0 < min share term.df.toNat then some (term.termId, min share term.df.toNat) else none

variable [Field K] [FloorSemiring K]

/-- Rounding to the nearest integer, away from zero in the middle; shares are not negative. -/
def roundShare (share : K) : Nat := ⌊share + 1 / 2⌋₊

def waterFillLoop : List (BudgetTerm K) → K → K → List (TermId × Nat)
  | [], _, _ => []
  | term :: rest, remainingBudget, remainingIdf =>
      let idf := max term.idf 0
      if remainingIdf ≤ 0 ∨ remainingBudget ≤ 0 ∨ idf ≤ 0 then
        waterFillLoop rest remainingBudget (remainingIdf - idf)
      else
        let fairShare := idf / remainingIdf * remainingBudget
        let alloc := min (min (roundShare fairShare) term.df.toNat) ⌊remainingBudget⌋₊
        let limits := waterFillLoop rest (remainingBudget - alloc) (remainingIdf - idf)
        if 0 < alloc then (term.termId, alloc) :: limits else limits

def waterFillBudget (terms : List (BudgetTerm K)) (totalBudget : Nat) : List (TermId × Nat) :=
  if totalBudget = 0 ∨ terms.isEmpty then []
  else
    let order := terms.insertionSort BudgetTerm.Ahead
    let remainingIdf := (terms.map fun term => max term.idf 0).sum
    if remainingIdf ≤ 0 then equalSplit (totalBudget / max terms.length 1) order
    else waterFillLoop order totalBudget remainingIdf

end Allocator

/-- A term that has no limit is not read. -/
def limitOf (termId : TermId) : List (TermId × Nat) → Nat
  | [] => 0
  | (known, limit) :: rest => if known = termId then limit else limitOf termId rest

theorem limitOf_mem {limits : List (TermId × Nat)} (distinct : (limits.map (·.1)).Nodup)
    {termId : TermId} {limit : Nat} (member : (termId, limit) ∈ limits) :
    limitOf termId limits = limit := by
  induction limits with
  | nil => exact absurd member List.not_mem_nil
  | cons first rest ih =>
      obtain ⟨new, distinct⟩ := List.nodup_cons.mp distinct
      rcases List.mem_cons.mp member with rfl | later
      · exact if_pos rfl
      · refine (if_neg ?_).trans (ih distinct later)
        rintro rfl
        exact new (List.mem_map.mpr ⟨_, later, rfl⟩)

theorem limitOf_absent {limits : List (TermId × Nat)} {termId : TermId}
    (absent : ∀ limit, (termId, limit) ∉ limits) : limitOf termId limits = 0 := by
  induction limits with
  | nil => rfl
  | cons first rest ih =>
      refine (if_neg ?_).trans (ih fun limit member => absent limit (List.mem_cons_of_mem _ member))
      rintro rfl
      exact absent first.2 (List.mem_cons_self ..)

section Limits

variable {K : Type} {order : List (BudgetTerm K)} {limits : List (TermId × Nat)}
  {term : BudgetTerm K}

/-- What the limits of some terms keep to. -/
structure Allocated {K : Type} (order : List (BudgetTerm K)) (limits : List (TermId × Nat)) : Prop where
  keys : (limits.map (·.1)).Sublist (order.map (·.termId))
  positive : ∀ entry ∈ limits, 0 < entry.2
  within : ∀ entry ∈ limits, ∃ term ∈ order, term.termId = entry.1 ∧ entry.2 ≤ term.df.toNat

theorem Allocated.skip (allocated : Allocated order limits) : Allocated (term :: order) limits := by
  refine ⟨allocated.keys.cons _, allocated.positive, fun entry member => ?_⟩
  obtain ⟨term, known, fits⟩ := allocated.within entry member
  exact ⟨term, List.mem_cons_of_mem _ known, fits⟩

theorem Allocated.serve (allocated : Allocated order limits) {limit : Nat} (positive : 0 < limit)
    (within : limit ≤ term.df.toNat) :
    Allocated (term :: order) ((term.termId, limit) :: limits) := by
  refine ⟨allocated.keys.cons_cons _, ?_, ?_⟩
  · intro entry member
    rcases List.mem_cons.mp member with rfl | later
    · exact positive
    · exact allocated.positive entry later
  · intro entry member
    rcases List.mem_cons.mp member with rfl | later
    · exact ⟨term, List.mem_cons_self .., rfl, within⟩
    · exact allocated.skip.within entry later

theorem equalSplit_allocated (share : Nat) (order : List (BudgetTerm K)) :
    Allocated order (equalSplit share order) := by
  induction order with
  | nil => exact ⟨.slnil, nofun, nofun⟩
  | cons term rest ih =>
      unfold equalSplit at ih ⊢
      rw [List.filterMap_cons]
      split
      · exact ih.skip
      · rename_i entry served
        split at served
        · rename_i positive
          obtain rfl := Option.some.inj served
          exact ih.serve positive (Nat.min_le_right _ _)
        · exact nomatch served

theorem equalSplit_sum (share : Nat) (order : List (BudgetTerm K)) :
    ((equalSplit share order).map (·.2)).sum ≤ share * order.length := by
  induction order with
  | nil => exact Nat.zero_le _
  | cons term rest ih =>
      unfold equalSplit at ih ⊢
      rw [List.filterMap_cons, List.length_cons, Nat.mul_succ]
      split
      · omega
      · rename_i entry served
        split at served
        · obtain rfl := Option.some.inj served
          rw [List.map_cons, List.sum_cons]
          omega
        · exact nomatch served

/-- The limits of terms that get all they have. -/
def fullLimits (order : List (BudgetTerm K)) : List (TermId × Nat) :=
  order.filterMap fun term =>
    if 0 < term.df.toNat then some (term.termId, term.df.toNat) else none

theorem limitOf_fullLimits {order : List (BudgetTerm K)} (distinct : (order.map (·.termId)).Nodup)
    {term : BudgetTerm K} (member : term ∈ order) :
    limitOf term.termId (fullLimits order) = term.df.toNat := by
  induction order with
  | nil => exact absurd member List.not_mem_nil
  | cons first rest ih =>
      obtain ⟨new, distinct⟩ := List.nodup_cons.mp distinct
      have apart (other : BudgetTerm K) (later : other ∈ rest) :
          first.termId ≠ other.termId := by
        intro same
        exact new (List.mem_map.mpr ⟨other, later, same.symm⟩)
      unfold fullLimits at ih ⊢
      rw [List.filterMap_cons]
      split
      · rename_i absent
        rcases List.mem_cons.mp member with rfl | later
        · have zero : term.df.toNat = 0 := by
            by_contra some
            rw [if_pos (by omega)] at absent
            exact nomatch absent
          rw [zero]
          refine limitOf_absent fun limit served => ?_
          obtain ⟨other, among, entry⟩ := List.mem_filterMap.mp served
          split at entry
          · exact apart other among (congrArg Prod.fst (Option.some.inj entry)).symm
          · exact nomatch entry
        · exact ih distinct later
      · rename_i entry served
        split at served
        · obtain rfl := Option.some.inj served
          rcases List.mem_cons.mp member with rfl | later
          · exact if_pos rfl
          · exact (if_neg (apart term later)).trans (ih distinct later)
        · exact nomatch served

end Limits

/-! ### The order of the terms -/

section Order

variable {K : Type} [LinearOrder K]

theorem ahead_total : Std.Total (BudgetTerm.Ahead (K := K)) := by
  constructor
  intro first second
  unfold BudgetTerm.Ahead
  rcases lt_trichotomy first.idf second.idf with less | same | more
  · exact .inr (.inl less)
  · rcases Nat.le_total first.termId.toNat second.termId.toNat with before | after
    · exact .inl (.inr ⟨same, before⟩)
    · exact .inr (.inr ⟨same.symm, after⟩)
  · exact .inl (.inl more)

theorem ahead_trans : IsTrans (BudgetTerm K) BudgetTerm.Ahead := by
  constructor
  intro first second third ahead behind
  unfold BudgetTerm.Ahead at *
  rcases ahead with more | ⟨same, before⟩
  · rcases behind with also | ⟨also, _⟩
    · exact .inl (also.trans more)
    · exact .inl (also ▸ more)
  · rcases behind with also | ⟨also, after⟩
    · exact .inl (same ▸ also)
    · exact .inr ⟨same.trans also, before.trans after⟩

theorem order_pairwise (terms : List (BudgetTerm K)) :
    (terms.insertionSort BudgetTerm.Ahead).Pairwise BudgetTerm.Ahead := by
  have := ahead_total (K := K)
  have := ahead_trans (K := K)
  exact List.pairwise_insertionSort _ _

/-- Terms with different ids have one order only. -/
theorem order_perm {terms other : List (BudgetTerm K)}
    (distinct : (terms.map (·.termId)).Nodup) (same : other.Perm terms) :
    other.insertionSort BudgetTerm.Ahead = terms.insertionSort BudgetTerm.Ahead := by
  have perm : (other.insertionSort BudgetTerm.Ahead).Perm
      (terms.insertionSort BudgetTerm.Ahead) :=
    ((List.perm_insertionSort ..).trans same).trans (List.perm_insertionSort ..).symm
  refine perm.eq_of_pairwise ?_ (order_pairwise other) (order_pairwise terms)
  intro first second left right ahead behind
  have ids : first.termId = second.termId := by
    rcases ahead with more | ⟨_, before⟩
    · rcases behind with also | ⟨also, _⟩
      · exact absurd more also.not_gt
      · exact absurd also.symm more.ne'
    · rcases behind with also | ⟨_, after⟩
      · exact absurd (‹first.idf = second.idf›) also.ne
      · exact UInt32.toNat_inj.mp (Nat.le_antisymm before after)
  have left := same.mem_iff.mp ((List.perm_insertionSort ..).mem_iff.mp left)
  have right := (List.perm_insertionSort BudgetTerm.Ahead terms).mem_iff.mp right
  exact List.inj_on_of_nodup_map distinct left right ids

end Order

section Allocation

variable {K : Type} [Field K] [LinearOrder K] [FloorSemiring K]

theorem waterFillLoop_allocated (order : List (BudgetTerm K)) (remainingBudget remainingIdf : K) :
    Allocated order (waterFillLoop order remainingBudget remainingIdf) := by
  induction order generalizing remainingBudget remainingIdf with
  | nil => exact ⟨.slnil, nofun, nofun⟩
  | cons term rest ih =>
      unfold waterFillLoop
      dsimp only
      split
      · exact (ih _ _).skip
      · split
        · rename_i positive
          exact (ih _ _).serve positive ((Nat.min_le_left _ _).trans (Nat.min_le_right _ _))
        · exact (ih _ _).skip

theorem waterFillBudget_perm {terms other : List (BudgetTerm K)}
    (distinct : (terms.map (·.termId)).Nodup) (same : other.Perm terms) (totalBudget : Nat) :
    waterFillBudget other totalBudget = waterFillBudget terms totalBudget := by
  unfold waterFillBudget
  dsimp only
  rw [order_perm distinct same, (same.map _).sum_eq, same.length_eq, same.isEmpty_eq]

variable [IsStrictOrderedRing K]

/-- No step takes more than is left. -/
theorem waterFillLoop_sum (order : List (BudgetTerm K)) {remainingBudget : K}
    (nonneg : 0 ≤ remainingBudget) (remainingIdf : K) :
    ((((waterFillLoop order remainingBudget remainingIdf).map (·.2)).sum : Nat) : K) ≤
      remainingBudget := by
  induction order generalizing remainingBudget remainingIdf with
  | nil => simpa [waterFillLoop] using nonneg
  | cons term rest ih =>
      unfold waterFillLoop
      dsimp only
      split
      · exact ih nonneg _
      · generalize roundShare (max term.idf 0 / remainingIdf * remainingBudget) = rounded
        have taken : ((min (min rounded term.df.toNat) ⌊remainingBudget⌋₊ : Nat) : K) ≤
            remainingBudget :=
          (Nat.cast_le.mpr (Nat.min_le_right _ _)).trans (Nat.floor_le nonneg)
        generalize min (min rounded term.df.toNat) ⌊remainingBudget⌋₊ = alloc at taken
        have rest := ih (sub_nonneg.mpr taken) (remainingIdf - max term.idf 0)
        split
        · rw [List.map_cons, List.sum_cons, Nat.cast_add]
          linarith
        · rename_i zero
          obtain rfl : alloc = 0 := by omega
          simpa using rest

/-! ### Terms that are served in full -/

/-- A term gets all its postings when it has the largest weight and the fewest postings of those that
are left, and the budget is enough for all of them. -/
theorem roundShare_full {idf remainingIdf remainingBudget : K} {df count : Nat}
    (positive : 0 < remainingIdf) (share : remainingIdf ≤ count * idf)
    (enough : ((count * df : Nat) : K) ≤ remainingBudget) :
    df ≤ roundShare (idf / remainingIdf * remainingBudget) := by
  have weight : 0 ≤ idf := by
    by_contra negative
    have product : (count : K) * idf ≤ 0 :=
      mul_nonpos_of_nonneg_of_nonpos (Nat.cast_nonneg _) (not_le.mp negative).le
    linarith
  have fair : (df : K) ≤ idf / remainingIdf * remainingBudget := by
    rw [div_mul_eq_mul_div, le_div_iff₀ positive]
    calc (df : K) * remainingIdf ≤ df * (count * idf) :=
          mul_le_mul_of_nonneg_left share (Nat.cast_nonneg _)
      _ = idf * ((count * df : Nat) : K) := by
          push_cast
          ring
      _ ≤ idf * remainingBudget := mul_le_mul_of_nonneg_left enough weight
  refine Nat.le_floor ?_
  have half : (0 : K) ≤ 1 / 2 := by norm_num
  linarith

theorem waterFillLoop_full {order : List (BudgetTerm K)}
    (positive : ∀ term ∈ order, 0 < term.idf)
    (falling : order.Pairwise fun first second =>
      second.idf ≤ first.idf ∧ first.df.toNat ≤ second.df.toNat)
    {remainingBudget : K}
    (enough : (((order.map (·.df.toNat)).sum : Nat) : K) ≤ remainingBudget) :
    waterFillLoop order remainingBudget (order.map (·.idf)).sum = fullLimits order := by
  induction order generalizing remainingBudget with
  | nil => rfl
  | cons term rest ih =>
      obtain ⟨first, falling⟩ := List.pairwise_cons.mp falling
      have weight := positive term (List.mem_cons_self ..)
      have others (other : BudgetTerm K) (member : other ∈ rest) :=
        positive other (List.mem_cons_of_mem _ member)
      have total : (term :: rest).length • term.df.toNat ≤
          ((term :: rest).map (·.df.toNat)).sum := by
        rw [← List.length_map (·.df.toNat)]
        refine List.card_nsmul_le_sum _ _ fun df member => ?_
        obtain ⟨other, among, rfl⟩ := List.mem_map.mp member
        rcases List.mem_cons.mp among with rfl | later
        · exact le_rfl
        · exact (first other later).2
      have weights : ((term :: rest).map (·.idf)).sum ≤ (term :: rest).length • term.idf := by
        rw [← List.length_map (·.idf)]
        refine List.sum_le_card_nsmul _ _ fun idf member => ?_
        obtain ⟨other, among, rfl⟩ := List.mem_map.mp member
        rcases List.mem_cons.mp among with rfl | later
        · exact le_rfl
        · exact (first other later).1
      have some : 0 < ((term :: rest).map (·.idf)).sum := by
        rw [List.map_cons, List.sum_cons]
        have nonneg : 0 ≤ (rest.map (·.idf)).sum := by
          refine List.sum_nonneg fun idf member => ?_
          obtain ⟨other, among, rfl⟩ := List.mem_map.mp member
          exact (others other among).le
        linarith
      rw [nsmul_eq_mul] at weights
      rw [nsmul_eq_mul, Nat.cast_id] at total
      have share := roundShare_full some weights ((Nat.cast_le.mpr total).trans enough)
      have left : (((rest.map (·.df.toNat)).sum : Nat) : K) ≤ remainingBudget - term.df.toNat := by
        rw [List.map_cons, List.sum_cons, Nat.cast_add] at enough
        linarith
      have whole : term.df.toNat ≤ ⌊remainingBudget⌋₊ := by
        refine Nat.le_floor ?_
        have nonneg : (0 : K) ≤ (((rest.map (·.df.toNat)).sum : Nat) : K) := Nat.cast_nonneg _
        linarith
      have minus : ((term :: rest).map (·.idf)).sum - term.idf = (rest.map (·.idf)).sum := by
        rw [List.map_cons, List.sum_cons]
        ring
      unfold waterFillLoop fullLimits
      dsimp only
      rw [max_eq_left weight.le, List.filterMap_cons, minus]
      split
      · rename_i stopped
        have spent : remainingBudget ≤ 0 := by
          rcases stopped with none | spent | none
          · exact absurd none some.not_ge
          · exact spent
          · exact absurd none weight.not_ge
        have zero : term.df.toNat = 0 := by
          have bound := (Nat.cast_le (α := K)).mpr whole
          rw [Nat.floor_of_nonpos spent] at whole
          omega
        rw [zero, Nat.cast_zero, sub_zero] at left
        rw [ih others falling left, if_neg (by omega)]
        rfl
      · rw [Nat.min_eq_right share, Nat.min_eq_left whole, ih others falling left]
        split
        · rfl
        · rfl

theorem waterFillBudget_allocated (terms : List (BudgetTerm K)) (totalBudget : Nat) :
    Allocated (terms.insertionSort BudgetTerm.Ahead) (waterFillBudget terms totalBudget) ∧
      ((waterFillBudget terms totalBudget).map (·.2)).sum ≤ totalBudget := by
  unfold waterFillBudget
  split
  · exact ⟨⟨List.nil_sublist _, nofun, nofun⟩, Nat.zero_le _⟩
  · dsimp only
    split
    · refine ⟨equalSplit_allocated _ _, (equalSplit_sum _ _).trans ?_⟩
      rw [List.length_insertionSort]
      calc totalBudget / max terms.length 1 * terms.length
          ≤ totalBudget / max terms.length 1 * max terms.length 1 :=
            Nat.mul_le_mul_left _ (Nat.le_max_left _ _)
        _ ≤ totalBudget := Nat.div_mul_le_self _ _
    · refine ⟨waterFillLoop_allocated .., ?_⟩
      exact (Nat.cast_le (α := K)).mp (waterFillLoop_sum _ (Nat.cast_nonneg _) _)

/-- Where rarer terms weigh more and the budget has room for all postings, all are read. -/
theorem waterFillBudget_full {terms : List (BudgetTerm K)} {totalBudget : Nat}
    (distinct : (terms.map (·.termId)).Nodup) (positive : ∀ term ∈ terms, 0 < term.idf)
    (antitone : ∀ first ∈ terms, ∀ second ∈ terms,
      first.df < second.df → second.idf < first.idf)
    (enough : (terms.map (·.df.toNat)).sum ≤ totalBudget) {term : BudgetTerm K}
    (member : term ∈ terms) :
    limitOf term.termId (waterFillBudget terms totalBudget) = term.df.toNat := by
  have perm := List.perm_insertionSort BudgetTerm.Ahead terms
  have inside (other : BudgetTerm K) :
      other ∈ terms.insertionSort BudgetTerm.Ahead → other ∈ terms := perm.mem_iff.mp
  have falling : (terms.insertionSort BudgetTerm.Ahead).Pairwise fun first second =>
      second.idf ≤ first.idf ∧ first.df.toNat ≤ second.df.toNat := by
    refine (order_pairwise terms).imp_of_mem ?_
    intro first second left right ahead
    have less : second.idf ≤ first.idf := by
      rcases ahead with more | ⟨same, _⟩
      · exact more.le
      · exact same.ge
    refine ⟨less, Nat.le_of_not_lt fun fewer => ?_⟩
    exact absurd (antitone second (inside _ right) first (inside _ left) fewer) less.not_gt
  unfold waterFillBudget
  split
  · rename_i none
    have zero : totalBudget = 0 := by
      refine none.resolve_right fun empty => ?_
      rw [List.isEmpty_iff.mp empty] at member
      exact absurd member List.not_mem_nil
    have bound := List.single_le_sum (l := terms.map (·.df.toNat)) (fun _ _ => Nat.zero_le _) _
      (List.mem_map_of_mem member)
    change 0 = _
    omega
  · have weights : (terms.map fun term => max term.idf 0).sum =
        ((terms.insertionSort BudgetTerm.Ahead).map (·.idf)).sum := by
      rw [(perm.map _).sum_eq]
      exact congrArg _ (List.map_congr_left fun term known => max_eq_left (positive term known).le)
    have some : 0 < (terms.map fun term => max term.idf 0).sum := by
      have nonneg : ∀ x ∈ terms.map fun term => max term.idf 0, 0 ≤ x := by
        intro x among
        obtain ⟨other, _, rfl⟩ := List.mem_map.mp among
        exact le_max_right _ _
      refine (positive term member).trans_le ((le_max_left _ 0).trans ?_)
      exact List.single_le_sum nonneg _ (List.mem_map_of_mem member)
    dsimp only
    rw [if_neg some.not_ge, weights, waterFillLoop_full (fun other known =>
      positive other (inside other known)) falling]
    · exact limitOf_fullLimits ((perm.map _).nodup_iff.mpr distinct) (perm.mem_iff.mpr member)
    · rw [(perm.map _).sum_eq]
      exact Nat.cast_le.mpr enough

/-- The limits keep to the postings of the terms and to the budget, none is zero, and the order in
which the terms are given does not matter. Every posting is read where the budget has room for all
and the weights fall strictly with the number of postings. -/
theorem waterFillBudget_exact (terms : List (BudgetTerm K)) (totalBudget : Nat)
    (distinct : (terms.map (·.termId)).Nodup) :
    (∀ term ∈ terms, limitOf term.termId (waterFillBudget terms totalBudget) ≤ term.df.toNat) ∧
    ((waterFillBudget terms totalBudget).map (·.2)).sum ≤ totalBudget ∧
    (∀ entry ∈ waterFillBudget terms totalBudget,
      0 < entry.2 ∧ ∃ term ∈ terms, term.termId = entry.1) ∧
    (∀ other : List (BudgetTerm K), other.Perm terms →
      waterFillBudget other totalBudget = waterFillBudget terms totalBudget) ∧
    ((∀ term ∈ terms, 0 < term.idf) →
      (∀ first ∈ terms, ∀ second ∈ terms, first.df < second.df → second.idf < first.idf) →
      (terms.map (·.df.toNat)).sum ≤ totalBudget →
      ∀ term ∈ terms, limitOf term.termId (waterFillBudget terms totalBudget) = term.df.toNat) := by
  have perm := List.perm_insertionSort BudgetTerm.Ahead terms
  obtain ⟨allocated, sum⟩ := waterFillBudget_allocated terms totalBudget
  have keys : ((waterFillBudget terms totalBudget).map (·.1)).Nodup :=
    allocated.keys.nodup ((perm.map _).nodup_iff.mpr distinct)
  refine ⟨fun term member => ?_, sum, fun entry served => ?_, fun other same => ?_, ?_⟩
  · by_cases served : ∃ limit, (term.termId, limit) ∈ waterFillBudget terms totalBudget
    · obtain ⟨limit, served⟩ := served
      obtain ⟨other, known, same, fits⟩ := allocated.within _ served
      obtain rfl := List.inj_on_of_nodup_map distinct (perm.mem_iff.mp known) member same
      rw [limitOf_mem keys served]
      exact fits
    · rw [limitOf_absent (not_exists.mp served)]
      exact Nat.zero_le _
  · obtain ⟨term, known, same, _⟩ := allocated.within entry served
    exact ⟨allocated.positive entry served, term, perm.mem_iff.mp known, same⟩
  · exact waterFillBudget_perm distinct same totalBudget
  · intro positive antitone enough term member
    exact waterFillBudget_full distinct positive antitone enough member

/-- Two terms of one weight, the one with more postings first. -/
def evenTerms : List (BudgetTerm ℚ) := [⟨0, 1, 10⟩, ⟨1, 1, 1⟩]

/-- Of eleven reads the first gets six, although it has ten postings. -/
theorem evenTerms_limit : (∀ term ∈ evenTerms, 0 < term.idf) ∧
    (∀ first ∈ evenTerms, ∀ second ∈ evenTerms, first.df ≤ second.df → second.idf ≤ first.idf) ∧
    (evenTerms.map (·.df.toNat)).sum ≤ 11 ∧ limitOf 0 (waterFillBudget evenTerms 11) ≠ 10 := by
  refine ⟨by simp [evenTerms], by simp [evenTerms], by decide, ?_⟩
  decide +kernel

theorem evenTerms_exact : ((waterFillBudget evenTerms 11).map (·.2)).sum ≤ 11 :=
  (waterFillBudget_exact evenTerms 11 (by decide)).2.1

end Allocation

end Valise
