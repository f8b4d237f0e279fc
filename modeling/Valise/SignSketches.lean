import Valise.SketchKernels
import Valise.UpqRows

/-!
Sign sketches of stored rows, from their codes, and of queries, from their coordinates. On exact
numbers a row whose pairs have an amplitude has the sketch of its rotated reconstruction.
-/

namespace Valise.SignSketches

open ByteLists Outcomes Outcomes.Outcome SketchScan UpqRows

/-! ### Bits that are set one by one -/

/-- One coordinate after the other sets its bit. -/
def setBits (on : Nat → Bool) : List Nat → List UInt64 → Result (List UInt64)
  | [], words => .ok words
  | place :: rest, words => do
      let words ← orBit words place (on place)
      setBits on rest words

theorem shifted_bit (on : Bool) {shift bit : Nat} (small : shift < 64) (inside : bit < 64) :
    ((if on then 1 else 0 : UInt64) <<< UInt64.ofNat shift).toNat.testBit bit =
      (on && decide (shift = bit)) := by
  have wide : shift < 2 ^ 64 := small.trans (by decide)
  rw [UInt64.toNat_shiftLeft, UInt64.toNat_ofNat_of_lt' wide, Nat.mod_eq_of_lt small,
    Nat.testBit_mod_two_pow, decide_eq_true inside, Bool.true_and]
  cases on with
  | false =>
      have zero : (if false = true then 1 else 0 : UInt64).toNat = 0 := rfl
      rw [zero, Nat.zero_shiftLeft, Nat.zero_testBit, Bool.false_and]
  | true =>
      have one : (if true = true then 1 else 0 : UInt64).toNat = 1 := rfl
      rw [one, Nat.one_shiftLeft, Nat.testBit_two_pow, Bool.true_and]

theorem bitAt_set {words : List UInt64} {word : UInt64} {bit place : Nat} {on : Bool}
    (stands : words[bit / 64]? = some word) :
    bitAt (words.set (bit / 64) (word ||| ((if on then 1 else 0) <<< UInt64.ofNat (bit % 64))))
      place = (bitAt words place || on && decide (bit = place)) := by
  have inside := (List.getElem?_eq_some_iff.mp stands).1
  unfold bitAt
  rw [List.getD_eq_getElem?_getD, List.getD_eq_getElem?_getD, List.getElem?_set]
  by_cases same : bit / 64 = place / 64
  · rw [if_pos same, if_pos inside, ← same, stands, Option.getD_some, Option.getD_some,
      UInt64.toNat_or, Nat.testBit_or,
      shifted_bit on (Nat.mod_lt _ (by decide)) (Nat.mod_lt _ (by decide))]
    have equal : bit % 64 = place % 64 ↔ bit = place := by omega
    rw [decide_eq_decide.mpr equal]
  · have other : bit ≠ place := fun equal => same (by rw [equal])
    rw [if_neg same, decide_eq_false other, Bool.and_false, Bool.or_false]

theorem orBit_bits {words : List UInt64} {bit : Nat} {on : Bool}
    (inside : bit / 64 < words.length) : ∃ next, orBit words bit on = .ok next ∧
      next.length = words.length ∧
      ∀ place, bitAt next place = (bitAt words place || on && decide (bit = place)) := by
  obtain ⟨word, found⟩ := entry inside
  refine ⟨words.set (bit / 64) (word ||| ((if on then 1 else 0) <<< UInt64.ofNat (bit % 64))), ?_,
    List.length_set, fun place => bitAt_set found⟩
  simp only [orBit, found]

theorem orBit_false {words : List UInt64} {bit : Nat} (inside : bit / 64 < words.length) :
    orBit words bit false = .ok words := by
  obtain ⟨word, found⟩ := entry inside
  have same : word ||| ((if false = true then 1 else 0) <<< UInt64.ofNat (bit % 64)) = word := by
    refine UInt64.toNat_inj.mp ?_
    rw [UInt64.toNat_or, UInt64.toNat_shiftLeft]
    simp
  have kept : words.set (bit / 64) word = words := by
    refine List.ext_getElem? fun place => ?_
    rw [List.getElem?_set]
    split
    · rename_i equal
      rw [← equal, found]
    · rfl
  simp only [orBit, found, same, kept]

/-- The bits set are those of the places that are on. -/
theorem setBits_bits {on : Nat → Bool} {places : List Nat} {words : List UInt64}
    (inside : ∀ place ∈ places, place / 64 < words.length) :
    ∃ next, setBits on places words = .ok next ∧ next.length = words.length ∧
      ∀ place, bitAt next place = (bitAt words place || decide (place ∈ places) && on place) := by
  induction places generalizing words with
  | nil => exact ⟨words, rfl, rfl, fun place => by simp⟩
  | cons first rest ih =>
      obtain ⟨here, later⟩ := List.forall_mem_cons.mp inside
      obtain ⟨next, set, length, bits⟩ := @orBit_bits words first (on first) here
      obtain ⟨last, done, same, all⟩ := @ih next (by rwa [length])
      refine ⟨last, ?_, same.trans length, fun place => ?_⟩
      · rw [setBits, set, ok_bind, done]
      · rw [all, bits, Bool.or_assoc]
        refine congrArg _ ?_
        by_cases equal : first = place
        · subst equal
          cases on first <;> simp
        · have member : place ∈ first :: rest ↔ place ∈ rest :=
            List.mem_cons.trans (or_iff_right fun now => equal now.symm)
          rw [decide_eq_false equal, Bool.and_false, Bool.false_or, decide_eq_decide.mpr member]

theorem setBits_append {on : Nat → Bool} {first second : List Nat} {words : List UInt64} :
    setBits on (first ++ second) words = setBits on first words >>= setBits on second := by
  induction first generalizing words with
  | nil => rfl
  | cons place rest ih =>
      rw [List.cons_append, setBits, setBits]
      cases orBit words place (on place) with
      | ok next => exact ih
      | err error => rfl
      | panic => rfl

theorem setBits_congr {on other : Nat → Bool} {places : List Nat} {words : List UInt64}
    (same : ∀ place ∈ places, on place = other place) :
    setBits on places words = setBits other places words := by
  induction places generalizing words with
  | nil => rfl
  | cons first rest ih =>
      obtain ⟨here, later⟩ := List.forall_mem_cons.mp same
      rw [setBits, setBits, here]
      cases orBit words first (other first) with
      | ok next => exact ih later
      | err error => rfl
      | panic => rfl

/-- The words that a sketch starts from. -/
def emptyWords (dim : Nat) : List UInt64 := List.replicate ((dim + 63) / 64) 0

theorem bitAt_emptyWords (dim place : Nat) : bitAt (emptyWords dim) place = false := by
  have zero : (emptyWords dim).getD (place / 64) 0 = 0 := by
    rw [emptyWords, List.getD_eq_getElem?_getD, List.getElem?_replicate]
    split <;> rfl
  rw [bitAt, zero]
  exact Nat.zero_testBit _

/-- What all sketches come to: as many words as needed, and the bits of the coordinates. -/
theorem setBits_sketch (on : Nat → Bool) (dim : Nat) :
    ∃ sketch, setBits on (List.range dim) (emptyWords dim) = .ok sketch ∧ Sketch dim sketch := by
  have length : (emptyWords dim).length = (dim + 63) / 64 := List.length_replicate
  obtain ⟨sketch, done, same, bits⟩ := @setBits_bits on (List.range dim) (emptyWords dim)
    fun place member => by
      have less := List.mem_range.mp member
      omega
  refine ⟨sketch, done, same.trans length, fun place past => ?_⟩
  have outside : place ∉ List.range dim := fun member =>
    absurd (List.mem_range.mp member) (Nat.not_lt.mpr past)
  rw [bits, bitAt_emptyWords, decide_eq_false outside]
  rfl

theorem pairs_flatMap (numPairs : Nat) :
    (List.range numPairs).flatMap (fun k => [2 * k, 2 * k + 1]) = List.range (2 * numPairs) := by
  induction numPairs with
  | zero => rfl
  | succ numPairs ih =>
      rw [List.range_succ, List.flatMap_append, ih, Nat.mul_succ, List.range_succ, List.range_succ,
        List.append_assoc]
      rfl

/-! ### The query's sketch -/

variable {K : Type} [Field K] [LinearOrder K]

/-- `if x >= 0.0 { o[i >> 6] |= 1u64 << (i & 63) }` -/
def setIf (x : K) (o : List UInt64) (i : Nat) : Result (List UInt64) :=
  if 0 ≤ x then orBit o i true else .ok o

def packLoop (rot : Nat → K) : List Nat → List UInt64 → Result (List UInt64)
  | [], o => .ok o
  | i :: rest, o => do
      let o ← setIf (rot i) o i
      packLoop rot rest o

def packQuerySketch (len : Nat) (rot : Nat → K) : Result (List UInt64) :=
  packLoop rot (List.range len) (emptyWords len)

theorem setIf_eq (x : K) {o : List UInt64} {i : Nat} (inside : i / 64 < o.length) :
    setIf x o i = orBit o i (decide (0 ≤ x)) := by
  unfold setIf
  split
  · rename_i on
    rw [decide_eq_true on]
  · rename_i off
    rw [decide_eq_false off, orBit_false inside]

theorem packLoop_eq (rot : Nat → K) {places : List Nat} {o : List UInt64}
    (inside : ∀ place ∈ places, place / 64 < o.length) :
    packLoop rot places o = setBits (fun i => decide (0 ≤ rot i)) places o := by
  induction places generalizing o with
  | nil => rfl
  | cons i rest ih =>
      obtain ⟨here, later⟩ := List.forall_mem_cons.mp inside
      obtain ⟨next, set, length, _⟩ := @orBit_bits o i (decide (0 ≤ rot i)) here
      rw [packLoop, setBits, setIf_eq _ here, set, ok_bind, ok_bind]
      exact ih (by rwa [length])

theorem packQuerySketch_eq (len : Nat) (rot : Nat → K) : packQuerySketch len rot =
    setBits (fun i => decide (0 ≤ rot i)) (List.range len) (emptyWords len) := by
  refine packLoop_eq rot fun place member => ?_
  have less := List.mem_range.mp member
  rw [emptyWords, List.length_replicate]
  omega

/-- A vector of the same signs, up to a scale, has the sketch. -/
theorem packQuerySketch_of_signs [IsStrictOrderedRing K] {len : Nat} {on : Nat → Bool} {rot : Nat → K}
    (signs : ∀ place < len, on place = decide (0 ≤ rot place)) {scale : K} (positive : 0 < scale) :
    packQuerySketch len (fun place => scale * rot place) =
      setBits on (List.range len) (emptyWords len) := by
  rw [packQuerySketch_eq]
  refine setBits_congr fun place member => ?_
  rw [signs place (List.mem_range.mp member)]
  exact decide_eq_decide.mpr (mul_nonneg_iff_of_pos_left positive)

/-! ### Pairs of coordinates -/

/-- The value of a place, from the values of its pair. -/
def ofPairs {α : Type} (value : Nat → α × α) (place : Nat) : α :=
  if place % 2 = 0 then (value (place / 2)).1 else (value (place / 2)).2

theorem ofPairs_even {α : Type} (value : Nat → α × α) (k : Nat) :
    ofPairs value (2 * k) = (value k).1 := by
  rw [ofPairs, if_pos (by omega), show 2 * k / 2 = k by omega]

theorem ofPairs_odd {α : Type} (value : Nat → α × α) (k : Nat) :
    ofPairs value (2 * k + 1) = (value k).2 := by
  rw [ofPairs, if_neg (by omega), show (2 * k + 1) / 2 = k by omega]

theorem setPair_ofPairs {V : Type} (x : Nat → V) (value : Nat → V × V) (k : Nat) :
    setPair x k (value k) = fun place => if place / 2 = k then ofPairs value place else x place := by
  funext place
  unfold setPair ofPairs
  by_cases pair : place / 2 = k
  · rw [if_pos pair]
    subst pair
    by_cases even : place % 2 = 0
    · rw [if_pos (by omega), if_pos even]
    · rw [if_neg (by omega), if_pos (by omega), if_neg even]
  · rw [if_neg (by omega), if_neg (by omega), if_neg pair]

/-- What the reader's loop has put in place of the pairs it has seen. -/
def placed {V : Type} (value : Nat → V × V) (ks : List Nat) (x : Nat → V) : Nat → V := fun place =>
  if place / 2 ∈ ks then ofPairs value place else x place

theorem placed_cons {V : Type} (value : Nat → V × V) (k : Nat) (ks : List Nat) (x : Nat → V) :
    placed value ks (setPair x k (value k)) = placed value (k :: ks) x := by
  funext place
  rw [setPair_ofPairs]
  unfold placed
  dsimp only
  by_cases later : place / 2 ∈ ks
  · rw [if_pos later, if_pos (List.mem_cons_of_mem k later)]
  · rw [if_neg later]
    by_cases here : place / 2 = k
    · rw [if_pos here, if_pos (List.mem_cons.mpr (.inl here))]
    · rw [if_neg here, if_neg fun member => (List.mem_cons.mp member).elim here later]

theorem signs_of_pairs {numPairs : Nat} {sign : Nat → Bool × Bool} {value : Nat → K × K}
    (matching : ∀ k < numPairs, (sign k).1 = decide (0 ≤ (value k).1) ∧
      (sign k).2 = decide (0 ≤ (value k).2)) (x : Nat → K) :
    ∀ place < 2 * numPairs, ofPairs sign place =
      decide (0 ≤ placed value (List.range numPairs) x place) := by
  intro place inside
  have pair : place / 2 < numPairs := by omega
  obtain ⟨first, second⟩ := matching _ pair
  unfold placed
  rw [if_pos (List.mem_range.mpr pair)]
  unfold ofPairs
  split
  · exact first
  · exact second

/-! ### Rows of the ring codec -/

/-- The operations on exact numbers; the tables of sines and cosines may hold anything. -/
structure ExactOps (ops : FloatOps K) : Prop where
  zero : ops.zero = 0
  mul : ∀ x y, ops.mul x y = x * y
  atLeast : ∀ x y, ops.atLeast x y = decide (y ≤ x)
  widen_pos : ∀ bits : F32, bits.isFinite → bits.isPositive → 0 < ops.widen bits

section Rings

variable {F : Type} {ops : FloatOps F}

/-- A cell that was filled has the signs of its point. -/
def Matches (ops : FloatOps F) (tables : UpqRows.Tables F) : Prop :=
  ∀ cell : Nat, ∀ point sign, tables.lutF32[cell]? = some point →
    tables.lutSign[cell]? = some sign → point = (ops.zero, ops.zero) ∨
      sign = (ops.atLeast point.1 ops.zero, ops.atLeast point.2 ops.zero)

theorem put_matches {tables next : UpqRows.Tables F} {cell : Nat} {re im : F} (kept : Matches ops tables)
    (stored : tables.put ops cell re im = .ok next) : Matches ops next := by
  unfold UpqRows.Tables.put at stored
  split at stored
  · rename_i inside
    obtain rfl := Outcome.ok.inj stored
    intro place point sign found signed
    rw [List.getElem?_set] at found signed
    by_cases same : cell = place
    · rw [if_pos same, if_pos inside.1] at found
      rw [if_pos same, if_pos inside.2] at signed
      obtain rfl := Option.some.inj found
      exact .inr (Option.some.inj signed).symm
    · rw [if_neg same] at found signed
      exact kept place point sign found signed
  · cases stored

theorem fillRing_matches {r : F} {p : UInt32} {b : Nat} {ms : List Nat} {tables next : UpqRows.Tables F}
    (kept : Matches ops tables) (filled : fillRing ops r p b ms tables = .ok next) :
    Matches ops next := by
  induction ms generalizing tables with
  | nil =>
      obtain rfl := Outcome.ok.inj filled
      exact kept
  | cons m rest ih =>
      obtain ⟨middle, stored, later⟩ := bind_eq_ok.mp filled
      exact ih (put_matches kept stored) later

theorem fillRings_matches {rings : List (F × UInt32 × Nat)} {tables next : UpqRows.Tables F}
    (kept : Matches ops tables) (filled : fillRings ops rings tables = .ok next) :
    Matches ops next := by
  induction rings generalizing tables with
  | nil =>
      obtain rfl := Outcome.ok.inj filled
      exact kept
  | cons ring rest ih =>
      obtain ⟨middle, stored, later⟩ := bind_eq_ok.mp filled
      exact ih (fillRing_matches kept stored) later

theorem buildTables_matches {design : UpqRows.UpqDesign F} {tables : UpqRows.Tables F}
    (built : UpqRows.buildTables ops design = .ok tables) : Matches ops tables := by
  refine fillRings_matches (fun cell point sign found _ => .inl ?_) built
  exact List.eq_of_mem_replicate (List.mem_of_getElem? found)

/-- The loop that sets the bits of a row sets those of its pairs. -/
theorem foldCells_sketch {codec : UpqRows.UpqCodec F} {base : Bytes} {cells : Nat → UInt16}
    {sign : Nat → Bool × Bool} {ks : List Nat}
    (reads : ∀ k ∈ ks, cellAt codec base k = .ok (cells k) ∧
      codec.tables.lutSign[(cells k).toNat]? = some (sign k)) (out : List UInt64) :
    foldCells codec base (sketchStep codec) ks out =
      setBits (ofPairs sign) (ks.flatMap fun k => [2 * k, 2 * k + 1]) out := by
  induction ks generalizing out with
  | nil => rfl
  | cons k rest ih =>
      obtain ⟨⟨cell, signed⟩, later⟩ := List.forall_mem_cons.mp reads
      have step : sketchStep codec out k (cells k) =
          setBits (ofPairs sign) [2 * k, 2 * k + 1] out := by
        simp only [sketchStep, signed, setBits, ofPairs_even, ofPairs_odd]
        refine congrArg _ (funext fun middle => ?_)
        cases orBit middle (2 * k + 1) (sign k).2 <;> rfl
      rw [List.flatMap_cons, setBits_append, ← step, foldCells, cell, ok_bind]
      exact congrArg _ (funext fun next => ih later next)

theorem foldCells_decode {codec : UpqRows.UpqCodec F} {base : Bytes}
    {cells : Nat → UInt16} {value : Nat → F × F} {ks : List Nat}
    (reads : ∀ k ∈ ks, cellAt codec base k = .ok (cells k) ∧
      pointAt ops codec k (cells k) = .ok (value k)) (x : Nat → F) :
    foldCells codec base (decodeStep ops codec) ks x = .ok (placed value ks x) := by
  induction ks generalizing x with
  | nil => rfl
  | cons k rest ih =>
      obtain ⟨⟨cell, found⟩, later⟩ := List.forall_mem_cons.mp reads
      rw [foldCells, cell, ok_bind, decodeStep, found, ok_bind, pure_eq, ok_bind, ih later,
        placed_cons]

theorem made_by {params : UpqParams} {codec : UpqRows.UpqCodec F}
    (made : UpqRows.fromParams ops params = .ok codec) : UpqRows.Sound codec ∧
    Matches ops codec.tables ∧ Accepted params ∧
      codec.sigmaPerPair = params.sigmaPerPair.map ops.widen := by
  obtain ⟨_, passed, later⟩ := bind_eq_ok.mp made
  obtain ⟨tables, built, same⟩ := bind_eq_ok.mp later
  obtain ⟨other, made', sound, _⟩ := fromParams_sound ops passed
  obtain rfl : other = codec := Outcome.ok.inj (made'.symm.trans made)
  obtain rfl := Outcome.ok.inj same
  exact ⟨sound, buildTables_matches built, accepted_of passed, rfl⟩

end Rings

/-- The row before its inverse rotation. -/
def rotatedReconstruction (ops : FloatOps K) (codec : UpqRows.UpqCodec K) (base : Bytes) :
    Result (Nat → K) :=
  foldRow codec base (decodeStep ops codec) fun _ => ops.zero

/-- No pair of the row is decoded to zero. -/
def Amplitudes (codec : UpqRows.UpqCodec K) (base : Bytes) : Prop :=
  ∀ k < codec.numPairs, ∃ cell point, UpqRows.cellAt codec base k = .ok cell ∧
    codec.tables.lutF32[cell.toNat]? = some point ∧ point ≠ (0, 0)

variable {ops : FloatOps K} {params : UpqParams} {codec : UpqRows.UpqCodec K} {base : Bytes}

/-- A pair with an amplitude has the signs that its cell was given. -/
theorem pair_signs [IsStrictOrderedRing K] (exact_ : ExactOps ops) (sound : UpqRows.Sound codec)
    (matching : Matches ops codec.tables) (positive : ∀ sigma ∈ codec.sigmaPerPair, 0 < sigma)
    {k : Nat} (inside : k < codec.numPairs) {cell : UInt16} {point : K × K}
    (found : codec.tables.lutF32[cell.toNat]? = some point) (amplitude : point ≠ (0, 0)) :
    ∃ value sign, codec.tables.lutSign[cell.toNat]? = some sign ∧
      pointAt ops codec k cell = .ok value ∧ sign.1 = decide (0 ≤ value.1) ∧
        sign.2 = decide (0 ≤ value.2) := by
  obtain ⟨sigma, scaled⟩ := entry (Nat.lt_of_lt_of_eq inside sound.sigmas.symm)
  have above := positive sigma (List.mem_of_getElem? scaled)
  have cells := (List.getElem?_eq_some_iff.mp found).1
  obtain ⟨sign, signed⟩ := entry (Nat.lt_of_lt_of_eq (Nat.lt_of_lt_of_eq cells sound.points)
    sound.bits.symm)
  have filled : sign = (ops.atLeast point.1 ops.zero, ops.atLeast point.2 ops.zero) := by
    rcases matching cell.toNat point sign found signed with none | some_
    · exact absurd (by rw [none, exact_.zero]) amplitude
    · exact some_
  have coordinate : ∀ x : K, ops.atLeast x ops.zero = decide (0 ≤ ops.mul x sigma) := by
    intro x
    rw [exact_.atLeast, exact_.zero, exact_.mul]
    exact decide_eq_decide.mpr (mul_nonneg_iff_of_pos_right above).symm
  refine ⟨(ops.mul point.1 sigma, ops.mul point.2 sigma), sign, signed, ?_, ?_, ?_⟩
  · simp only [pointAt, found, scaled]
  · rw [filled]
    exact coordinate point.1
  · rw [filled]
    exact coordinate point.2

theorem rings_sketch [IsStrictOrderedRing K] (exact_ : ExactOps ops)
    (made : UpqRows.fromParams ops params = .ok codec) (long : codec.baseBytes ≤ base.length)
    (amplitudes : Amplitudes codec base) : ∃ sketch x,
      UpqRows.signSketch codec base = .ok sketch ∧
      rotatedReconstruction ops codec base = .ok x ∧
      (∀ scale, 0 < scale → packQuerySketch codec.dim (fun place => scale * x place) =
        .ok sketch) ∧ Sketch codec.dim sketch := by
  obtain ⟨sound, matching, accepted, sigmas⟩ := made_by made
  have positive : ∀ sigma ∈ codec.sigmaPerPair, 0 < sigma := by
    intro sigma member
    rw [sigmas] at member
    obtain ⟨bits, stored, rfl⟩ := List.mem_map.mp member
    obtain ⟨finite, above⟩ := accepted.positive bits stored
    exact exact_.widen_pos bits finite above
  have each : ∀ k, ∃ (cell : UInt16) (value : K × K) (sign : Bool × Bool), k < codec.numPairs →
      UpqRows.cellAt codec base k = .ok cell ∧ codec.tables.lutSign[cell.toNat]? = some sign ∧
        pointAt ops codec k cell = .ok value ∧ sign.1 = decide (0 ≤ value.1) ∧
          sign.2 = decide (0 ≤ value.2) := by
    intro k
    by_cases inside : k < codec.numPairs
    · obtain ⟨cell, point, reads, found, amplitude⟩ := amplitudes k inside
      obtain ⟨value, sign, signs⟩ :=
        pair_signs exact_ sound matching positive inside found amplitude
      exact ⟨cell, value, sign, fun _ => ⟨reads, signs⟩⟩
    · exact ⟨0, (0, 0), (false, false), fun now => absurd now inside⟩
  choose cells value sign all using each
  obtain ⟨sketch, done, exactly⟩ := setBits_sketch (ofPairs sign) codec.dim
  have signs := signs_of_pairs (fun k inside => (all k inside).2.2.2) fun _ => ops.zero
  rw [← sound.dim] at signs
  have reads := fun k (member : k ∈ List.range codec.numPairs) =>
    all k (List.mem_range.mp member)
  refine ⟨sketch, placed value (List.range codec.numPairs) fun _ => ops.zero, ?_, ?_,
    fun scale above => (packQuerySketch_of_signs signs above).trans done, exactly⟩
  · rw [UpqRows.signSketch, foldRow, checkBaseLen, Outcome.ensure_true _ long, ok_bind,
      foldCells_sketch fun k member => ⟨(reads k member).1, (reads k member).2.1⟩, pairs_flatMap,
      ← sound.dim]
    exact done
  · rw [rotatedReconstruction, foldRow, checkBaseLen, Outcome.ensure_true _ long, ok_bind,
      foldCells_decode fun k member => ⟨(reads k member).1, (reads k member).2.2.1⟩]

/-! ### Rows of amplitudes and phases -/

/-- The codec with its tables; the cosines and sines may be any numbers. -/
structure QamTables (K : Type) where
  numPairs : Nat
  ampBits : Nat
  phaseBits : Nat
  sigmaPerPair : List K
  ampLevelsUnit : List K
  phaseCosLut : List K
  phaseSinLut : List K
  amp_narrow : 1 ≤ ampBits ∧ ampBits ≤ 8
  phase_narrow : 1 ≤ phaseBits ∧ phaseBits ≤ 8
  sigmas : sigmaPerPair.length = numPairs
  levels : ampLevelsUnit.length = 2 ^ ampBits
  cosines : phaseCosLut.length = 2 ^ phaseBits
  sines : phaseSinLut.length = 2 ^ phaseBits

namespace QamTables

variable (qam : QamTables K)

def dim : Nat := 2 * qam.numPairs

def ampStreamBytes : Nat := paddedStreamBytes qam.numPairs qam.ampBits

def baseBytesPerVector : Nat :=
  qam.ampStreamBytes + paddedStreamBytes qam.numPairs qam.phaseBits

def ampIndices (base : Bytes) : Result (List UInt32) :=
  unpackBits (base.take qam.ampStreamBytes) qam.ampBits qam.numPairs

def phaseIndices (base : Bytes) : Result (List UInt32) :=
  unpackBits (base.drop qam.ampStreamBytes) qam.phaseBits qam.numPairs

def sketchLoop : Nat → List UInt32 → List UInt64 → Result (List UInt64)
  | _, [], sk => .ok sk
  | k, pi :: rest, sk =>
      match qam.phaseCosLut[pi.toNat]?, qam.phaseSinLut[pi.toNat]? with
      | some c, some s => do
          let sk ← setIf c sk (2 * k)
          let sk ← setIf s sk (2 * k + 1)
          sketchLoop (k + 1) rest sk
      | _, _ => .panic

def signSketch (base : Bytes) : Result (List UInt64) := do
  Outcome.ensure (base.length = qam.baseBytesPerVector) (.format
    s!"QamLloydMaxCodec::sign_sketch: base length mismatch (expected {qam.baseBytesPerVector}, got {base.length})")
  let phases ← qam.phaseIndices base
  qam.sketchLoop 0 phases (emptyWords qam.dim)

def decodeLoop : Nat → List (UInt32 × UInt32) → (Nat → K) → Result (Nat → K)
  | _, [], x => .ok x
  | k, (ai, pi) :: rest, x => do
      Outcome.ensure (ai.toNat < 2 ^ qam.ampBits) (.integrity
        s!"QamLloydMaxCodec::decode_lossy: pair {k} amp_index {ai} >= {2 ^ qam.ampBits}")
      Outcome.ensure (pi.toNat < 2 ^ qam.phaseBits) (.integrity
        s!"QamLloydMaxCodec::decode_lossy: pair {k} phase_index {pi} >= {2 ^ qam.phaseBits}")
      match qam.ampLevelsUnit[ai.toNat]?, qam.sigmaPerPair[k]?, qam.phaseCosLut[pi.toNat]?,
          qam.phaseSinLut[pi.toNat]? with
      | some level, some sigma, some c, some s =>
          decodeLoop (k + 1) rest (setPair x k (level * sigma * c, level * sigma * s))
      | _, _, _, _ => .panic

/-- The row before its inverse rotation. -/
def rotatedReconstruction (base : Bytes) : Result (Nat → K) := do
  Outcome.ensure (base.length = qam.baseBytesPerVector) (.format
    s!"QamLloydMaxCodec::decode_lossy: base length mismatch (expected {qam.baseBytesPerVector}, got {base.length})")
  let amps ← qam.ampIndices base
  let phases ← qam.phaseIndices base
  qam.decodeLoop 0 (amps.zip phases) fun _ => 0

/-- Every pair of the row has an amplitude. -/
def Amplitudes (base : Bytes) : Prop :=
  ∀ amps, qam.ampIndices base = .ok amps → ∀ (k : Nat) (ai : UInt32) (level sigma : K),
    amps[k]? = some ai →
      qam.ampLevelsUnit[ai.toNat]? = some level → qam.sigmaPerPair[k]? = some sigma →
        0 < level * sigma

variable {qam} {base : Bytes}

/-- A stream that is long enough gives its codes, and none is too wide. -/
theorem unpacked {bits count : Nat} {bytes : Bytes} (narrow : bits ≤ 8)
    (enough : paddedStreamBytes count bits ≤ bytes.length) :
    ∃ codes, unpackBits bytes bits count = .ok codes ∧ codes.length = count ∧
      ∀ code ∈ codes, code.toNat < 2 ^ bits := by
  have room := QamLloydMaxCodec.padded_enough count bits
  have whole : count * bits ≤ 8 * bytes.length := by
    unfold packedBytes at room
    omega
  refine ⟨_, unpackBits_eq (by omega) whole, codes_length _ _ _, fun code member => ?_⟩
  obtain ⟨place, _, rfl⟩ := List.mem_map.mp member
  have less := BitFields.field_lt bits (getLittleEndian bytes) place
  rwa [code_toNat less narrow]

theorem sketchLoop_eq {sign : Nat → Bool × Bool} {phases : List UInt32} {k : Nat}
    {sk : List UInt64} (inside : (2 * (k + phases.length) + 63) / 64 ≤ sk.length)
    (luts : ∀ (j : Nat) (pi : UInt32), phases[j]? = some pi → ∃ c s, qam.phaseCosLut[pi.toNat]? = some c ∧
      qam.phaseSinLut[pi.toNat]? = some s ∧ sign (k + j) = (decide (0 ≤ c), decide (0 ≤ s))) :
    qam.sketchLoop k phases sk = setBits (ofPairs sign)
      ((List.range' k phases.length).flatMap fun k => [2 * k, 2 * k + 1]) sk := by
  induction phases generalizing k sk with
  | nil => rfl
  | cons pi rest ih =>
      obtain ⟨c, s, cosine, sine, signed⟩ := luts 0 pi rfl
      have signed : sign k = (decide (0 ≤ c), decide (0 ≤ s)) := signed
      rw [List.length_cons] at inside
      obtain ⟨first, set, same, _⟩ := @orBit_bits sk (2 * k) (decide (0 ≤ c)) (by omega)
      obtain ⟨second, setAgain, sameAgain, _⟩ :=
        @orBit_bits first (2 * k + 1) (decide (0 ≤ s)) (by omega)
      have here : setBits (ofPairs sign) [2 * k, 2 * k + 1] sk = .ok second := by
        simp only [setBits, ofPairs_even, ofPairs_odd, signed, set, setAgain, ok_bind]
      rw [List.length_cons, List.range'_succ, List.flatMap_cons, setBits_append, here, ok_bind,
        sketchLoop, cosine, sine]
      simp only [setIf_eq c (show 2 * k / 64 < sk.length by omega), set, ok_bind,
        setIf_eq s (show (2 * k + 1) / 64 < first.length by omega), setAgain]
      refine ih (by omega) fun j pi found => ?_
      obtain ⟨c, s, cosine, sine, signed⟩ := luts (j + 1) pi found
      exact ⟨c, s, cosine, sine, by rw [← signed, Nat.add_right_comm, Nat.add_assoc]⟩

omit [LinearOrder K] in
theorem decodeLoop_eq {value : Nat → K × K} {pairs : List (UInt32 × UInt32)} {k : Nat}
    {x : Nat → K} (luts : ∀ (j : Nat) (ai pi : UInt32), pairs[j]? = some (ai, pi) → ai.toNat < 2 ^ qam.ampBits ∧
      pi.toNat < 2 ^ qam.phaseBits ∧ ∃ level sigma c s, qam.ampLevelsUnit[ai.toNat]? = some level ∧
        qam.sigmaPerPair[k + j]? = some sigma ∧ qam.phaseCosLut[pi.toNat]? = some c ∧
        qam.phaseSinLut[pi.toNat]? = some s ∧
        value (k + j) = (level * sigma * c, level * sigma * s)) :
    qam.decodeLoop k pairs x = .ok (placed value (List.range' k pairs.length) x) := by
  induction pairs generalizing k x with
  | nil => rfl
  | cons pair rest ih =>
      obtain ⟨ai, pi⟩ := pair
      obtain ⟨amp, phase, level, sigma, c, s, levels, sigmas, cosine, sine, valued⟩ :=
        luts 0 ai pi rfl
      have valued : value k = (level * sigma * c, level * sigma * s) := valued
      have sigmas : qam.sigmaPerPair[k]? = some sigma := sigmas
      rw [decodeLoop, Outcome.ensure_true _ amp, ok_bind, Outcome.ensure_true _ phase, ok_bind,
        levels, sigmas, cosine, sine]
      dsimp only
      rw [List.length_cons, List.range'_succ, ← placed_cons, valued]
      refine ih fun j ai pi found => ?_
      have later := luts (j + 1) ai pi found
      rwa [← Nat.add_assoc, Nat.add_right_comm] at later

/-- The codes of a row: one of each kind for each pair, and none too wide for its table. -/
structure Stored (qam : QamTables K) (base : Bytes) (amps phases : List UInt32) : Prop where
  ampsRead : qam.ampIndices base = .ok amps
  phasesRead : qam.phaseIndices base = .ok phases
  ampCount : amps.length = qam.numPairs
  phaseCount : phases.length = qam.numPairs
  ampLess : ∀ code ∈ amps, code.toNat < 2 ^ qam.ampBits
  phaseLess : ∀ code ∈ phases, code.toNat < 2 ^ qam.phaseBits

omit [Field K] [LinearOrder K] in
theorem stored_of_length (length : base.length = qam.baseBytesPerVector) :
    ∃ amps phases, qam.Stored base amps phases := by
  have split : base.length = qam.ampStreamBytes + paddedStreamBytes qam.numPairs qam.phaseBits :=
    length
  obtain ⟨amps, ampsRead, ampCount, ampLess⟩ := @unpacked qam.ampBits qam.numPairs
    (base.take qam.ampStreamBytes) qam.amp_narrow.2 (by
      rw [List.length_take, split]
      exact Nat.le_min.mpr ⟨Nat.le_refl _, Nat.le_add_right _ _⟩)
  obtain ⟨phases, phasesRead, phaseCount, phaseLess⟩ := @unpacked qam.phaseBits qam.numPairs
    (base.drop qam.ampStreamBytes) qam.phase_narrow.2 (by
      rw [List.length_drop, split]
      omega)
  exact ⟨amps, phases, ampsRead, phasesRead, ampCount, phaseCount, ampLess, phaseLess⟩

/-- The point of a pair, from its two codes. -/
def pointOf (qam : QamTables K) (amps phases : List UInt32) (k : Nat) : K × K :=
  let amp := qam.ampLevelsUnit.getD (amps.getD k 0).toNat 0 * qam.sigmaPerPair.getD k 0
  (amp * qam.phaseCosLut.getD (phases.getD k 0).toNat 0,
    amp * qam.phaseSinLut.getD (phases.getD k 0).toNat 0)

/-- The signs of a pair, from its phase. -/
def signOf (qam : QamTables K) (phases : List UInt32) (k : Nat) : Bool × Bool :=
  (decide (0 ≤ qam.phaseCosLut.getD (phases.getD k 0).toNat 0),
    decide (0 ≤ qam.phaseSinLut.getD (phases.getD k 0).toNat 0))

variable {amps phases : List UInt32} {k : Nat} {ai pi : UInt32}

/-- What the tables hold for the codes of a pair. -/
theorem Stored.lookup (stored : qam.Stored base amps phases) (amp : amps[k]? = some ai)
    (phase : phases[k]? = some pi) : ∃ level sigma c s,
      qam.ampLevelsUnit[ai.toNat]? = some level ∧ qam.sigmaPerPair[k]? = some sigma ∧
      qam.phaseCosLut[pi.toNat]? = some c ∧ qam.phaseSinLut[pi.toNat]? = some s ∧
      qam.pointOf amps phases k = (level * sigma * c, level * sigma * s) ∧
      qam.signOf phases k = (decide (0 ≤ c), decide (0 ≤ s)) := by
  have inside := (List.getElem?_eq_some_iff.mp amp).1
  have wide := stored.ampLess ai (List.mem_of_getElem? amp)
  have small := stored.phaseLess pi (List.mem_of_getElem? phase)
  obtain ⟨level, levels⟩ := entry (Nat.lt_of_lt_of_eq wide qam.levels.symm)
  obtain ⟨sigma, sigmas⟩ := entry (Nat.lt_of_lt_of_eq inside
    (stored.ampCount.trans qam.sigmas.symm))
  obtain ⟨c, cosine⟩ := entry (Nat.lt_of_lt_of_eq small qam.cosines.symm)
  obtain ⟨s, sine⟩ := entry (Nat.lt_of_lt_of_eq small qam.sines.symm)
  refine ⟨level, sigma, c, s, levels, sigmas, cosine, sine, ?_, ?_⟩
  · simp only [pointOf, List.getD_eq_getElem?_getD, amp, phase, levels, sigmas, cosine, sine,
      Option.getD_some]
  · simp only [signOf, List.getD_eq_getElem?_getD, phase, cosine, sine, Option.getD_some]

/-- A pair with an amplitude has the signs of its phase. -/
theorem Stored.signs [IsStrictOrderedRing K] (stored : qam.Stored base amps phases)
    (amplitudes : qam.Amplitudes base) (inside : k < qam.numPairs) :
    (qam.signOf phases k).1 = decide (0 ≤ (qam.pointOf amps phases k).1) ∧
      (qam.signOf phases k).2 = decide (0 ≤ (qam.pointOf amps phases k).2) := by
  obtain ⟨ai, amp⟩ := entry (Nat.lt_of_lt_of_eq inside stored.ampCount.symm)
  obtain ⟨pi, phase⟩ := entry (Nat.lt_of_lt_of_eq inside stored.phaseCount.symm)
  obtain ⟨level, sigma, c, s, levels, sigmas, _, _, point, sign⟩ := stored.lookup amp phase
  have above := amplitudes amps stored.ampsRead k ai level sigma amp levels sigmas
  rw [point, sign]
  exact ⟨decide_eq_decide.mpr (mul_nonneg_iff_of_pos_left above).symm,
    decide_eq_decide.mpr (mul_nonneg_iff_of_pos_left above).symm⟩

theorem Stored.sketch (stored : qam.Stored base amps phases)
    (length : base.length = qam.baseBytesPerVector) : qam.signSketch base =
      setBits (ofPairs (qam.signOf phases)) (List.range qam.dim) (emptyWords qam.dim) := by
  have room : (2 * (0 + phases.length) + 63) / 64 ≤ (emptyWords qam.dim).length := by
    rw [emptyWords, List.length_replicate, stored.phaseCount, Nat.zero_add]
    exact Nat.le_refl _
  have loop := sketchLoop_eq room fun j pi phase => by
    have inside := (List.getElem?_eq_some_iff.mp phase).1
    obtain ⟨ai, amp⟩ := entry (Nat.lt_of_lt_of_eq inside
      (stored.phaseCount.trans stored.ampCount.symm))
    obtain ⟨_, _, c, s, _, _, cosine, sine, _, sign⟩ := stored.lookup amp phase
    exact ⟨c, s, cosine, sine, (congrArg _ (Nat.zero_add j)).trans sign⟩
  rw [stored.phaseCount, ← List.range_eq_range', pairs_flatMap] at loop
  rw [signSketch, Outcome.ensure_true _ length, ok_bind, stored.phasesRead, ok_bind]
  exact loop

theorem Stored.decode (stored : qam.Stored base amps phases)
    (length : base.length = qam.baseBytesPerVector) : qam.rotatedReconstruction base =
      .ok (placed (qam.pointOf amps phases) (List.range qam.numPairs) fun _ => 0) := by
  have zipped : (amps.zip phases).length = qam.numPairs := by
    rw [List.length_zip, stored.ampCount, stored.phaseCount, Nat.min_self]
  have loop := @decodeLoop_eq K _ qam (qam.pointOf amps phases) (amps.zip phases) 0 (fun _ => 0)
    fun j ai pi found => by
      obtain ⟨amp, phase⟩ := List.getElem?_zip_eq_some.mp found
      obtain ⟨level, sigma, c, s, levels, sigmas, cosine, sine, point, _⟩ :=
        stored.lookup amp phase
      rw [Nat.zero_add]
      exact ⟨stored.ampLess ai (List.mem_of_getElem? amp),
        stored.phaseLess pi (List.mem_of_getElem? phase), level, sigma, c, s, levels, sigmas,
        cosine, sine, point⟩
  rw [zipped, ← List.range_eq_range'] at loop
  rw [rotatedReconstruction, Outcome.ensure_true _ length, ok_bind, stored.ampsRead, ok_bind,
    stored.phasesRead, ok_bind, loop]

theorem qam_sketch [IsStrictOrderedRing K] (length : base.length = qam.baseBytesPerVector)
    (amplitudes : qam.Amplitudes base) : ∃ sketch x, qam.signSketch base = .ok sketch ∧
      qam.rotatedReconstruction base = .ok x ∧
      (∀ scale, 0 < scale → packQuerySketch qam.dim (fun place => scale * x place) =
        .ok sketch) ∧ Sketch qam.dim sketch := by
  obtain ⟨amps, phases, stored⟩ := stored_of_length length
  have signs := signs_of_pairs (fun k inside => stored.signs amplitudes inside) fun _ => 0
  obtain ⟨sketch, done, exactly⟩ := setBits_sketch (ofPairs (qam.signOf phases)) qam.dim
  exact ⟨sketch, _, (stored.sketch length).trans done, stored.decode length,
    fun scale above => (packQuerySketch_of_signs signs above).trans done, exactly⟩

end QamTables

/-! ### Sketches and their distances -/

/-- Rows and queries have the same sketches, and all kernels count the same distance between two of
them, which fits its slot and its histogram. -/
theorem sketches_exact {K : Type} [Field K] [LinearOrder K] [IsStrictOrderedRing K] :
    (∀ (qam : QamTables K) (base : Bytes), base.length = qam.baseBytesPerVector →
      qam.Amplitudes base → ∃ sketch x, qam.signSketch base = .ok sketch ∧
        qam.rotatedReconstruction base = .ok x ∧
        (∀ scale, 0 < scale → packQuerySketch qam.dim (fun place => scale * x place) =
          .ok sketch) ∧ Sketch qam.dim sketch) ∧
      (∀ (ops : FloatOps K) (params : UpqParams) (codec : UpqRows.UpqCodec K) (base : Bytes),
        ExactOps ops → UpqRows.fromParams ops params = .ok codec →
        codec.baseBytes ≤ base.length → Amplitudes codec base →
        ∃ sketch x, UpqRows.signSketch codec base = .ok sketch ∧
          rotatedReconstruction ops codec base = .ok x ∧
          (∀ scale, 0 < scale → packQuerySketch codec.dim (fun place => scale * x place) =
            .ok sketch) ∧ Sketch codec.dim sketch) ∧
      (∀ (dim : Nat) (rot : Nat → K), ∃ sketch, packQuerySketch dim rot = .ok sketch ∧
        Sketch dim sketch) ∧
      ∀ (dim : Nat) (a b : List UInt64), dim ≤ 65535 → Sketch dim a → Sketch dim b →
        hammingScalar a b ≤ dim ∧ hammingPopcnt a b = hammingScalar a b ∧
          hammingShuffle a b = hammingScalar a b ∧ hammingNeon a b = hammingScalar a b ∧
          hammingScalar a b % 2 ^ 16 = hammingScalar a b ∧
          ∀ hist, hist.length = dim + 2 → ∃ next, bump hist (hammingScalar a b) = .ok next := by
  refine ⟨fun qam base => QamTables.qam_sketch,
    fun ops params codec base exact_ made long amplitudes =>
      rings_sketch exact_ made long amplitudes, fun dim rot => ?_, fun dim a b narrow left right => ?_⟩
  · rw [packQuerySketch_eq]
    exact setBits_sketch _ dim
  · obtain ⟨most, popcnt, shuffle, neon⟩ := kernels_agree left right (by omega)
    exact ⟨most, popcnt, shuffle, neon, Nat.mod_eq_of_lt (by omega),
      fun hist bins => ⟨_, bump_eq (by omega)⟩⟩

/-- A row of one pair, at a quarter turn, and the distance of two sketches. -/
theorem sketches_exact_turn :
    let qam : QamTables ℚ :=
      { numPairs := 1, ampBits := 1, phaseBits := 2, sigmaPerPair := [2], ampLevelsUnit := [1, 3]
        phaseCosLut := [1, 0, -1, 0], phaseSinLut := [0, 1, 0, -1], amp_narrow := by decide
        phase_narrow := by decide, sigmas := rfl, levels := rfl, cosines := rfl, sines := rfl }
    (∃ sketch x, qam.signSketch (List.replicate 128 3) = .ok sketch ∧
      qam.rotatedReconstruction (List.replicate 128 3) = .ok x ∧
      packQuerySketch 2 (fun place => 5 * x place) = .ok sketch) ∧
      hammingShuffle [1] [3] = hammingScalar [1] [3] := by
  intro qam
  have positive : qam.Amplitudes (List.replicate 128 3) := by
    intro amps _ k ai level sigma _ levels sigmas
    have level_pos : 0 < level := by
      have member := List.mem_of_getElem? levels
      simp only [qam, List.mem_cons, List.not_mem_nil, or_false] at member
      rcases member with rfl | rfl <;> norm_num
    have sigma_pos : 0 < sigma := by
      have member := List.mem_of_getElem? sigmas
      simp only [qam, List.mem_cons, List.not_mem_nil, or_false] at member
      rw [member]
      norm_num
    exact mul_pos level_pos sigma_pos
  have length : (List.replicate 128 (3 : UInt8)).length = qam.baseBytesPerVector := by
    rw [List.length_replicate]
    simp only [qam]
    rfl
  obtain ⟨sketch, x, packed, decoded, same, _⟩ :=
    (sketches_exact (K := ℚ)).1 qam (List.replicate 128 3) length positive
  have clear : ∀ word : UInt64, word.toNat < 4 → Sketch 2 [word] := by
    refine fun word small => ⟨rfl, fun place past => ?_⟩
    unfold bitAt
    by_cases first : place / 64 = 0
    · rw [first]
      have wide : 2 ^ 2 ≤ 2 ^ (place % 64) := Nat.pow_le_pow_right (by decide) (by omega)
      exact Nat.testBit_lt_two_pow (Nat.lt_of_lt_of_le small wide)
    · have none : [word].getD (place / 64) 0 = 0 := by
        rw [List.getD_eq_getElem?_getD, List.getElem?_eq_none (by
          rw [List.length_singleton]
          omega)]
        rfl
      rw [none]
      exact Nat.zero_testBit _
  exact ⟨⟨sketch, x, packed, decoded, same 5 (by norm_num)⟩,
    ((sketches_exact (K := ℚ)).2.2.2 2 [1] [3] (by decide) (clear 1 (by decide))
      (clear 3 (by decide))).2.2.1⟩

end Valise.SignSketches
