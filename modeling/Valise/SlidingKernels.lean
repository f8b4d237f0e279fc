import Valise.Library.BitFields
import Valise.Library.Lanes

/-!
The integer dot product of packed codes with a query: the scalar loop, and the kernels for two
kinds of vector registers.
-/

namespace Valise

open BitFields ByteLists Lanes Lanes.Run

/-- The tables and the query have bytes with a sign. -/
structure DotOperands where
  ampTable : List Int
  cosTable : List Int
  sinTable : List Int
  ampStream : Bytes
  phaseStream : Bytes
  q : List Int

namespace DotOperands

/-! ### The scalar loop -/

/-- At most eight bytes, with zeros after the end of the stream. -/
def loadPadded (stream : Bytes) (start : Nat) : Run Nat :=
  check (start ≤ stream.length) (getLittleEndian (slice stream start 8))

def ampIndex (chunk place : Nat) : Nat := (chunk >>> (place * 5)) &&& 0x1F

def phaseIndex (chunk place : Nat) : Nat := (chunk >>> (place * 6)) &&& 0x3F

def scorePair (ops : DotOperands) (aChunk pChunk qBase place : Nat) : Run Int := do
  let a ← readAt ops.ampTable (ampIndex aChunk place)
  let c ← readAt ops.cosTable (phaseIndex pChunk place)
  let s ← readAt ops.sinTable (phaseIndex pChunk place)
  let qr ← readAt ops.q (qBase + place * 2)
  let qi ← readAt ops.q (qBase + place * 2 + 1)
  let ip16 := qr * c + qi * s
  let ip8 := max (-128) (min 127 ((ip16 + 2 ^ 6) / 2 ^ 7))
  return ip8 * a

def accumulate (count : Nat) (term : Nat → Run Int) (acc : Int) : Run Int :=
  (List.range count).foldlM (fun acc place => do return acc + (← term place)) acc

/-- The first `pairs` pairs of a group. -/
def scoreGroup (ops : DotOperands) (group pairs : Nat) (acc : Int) : Run Int := do
  let aChunk ← loadPadded ops.ampStream (group * 5)
  let pChunk ← loadPadded ops.phaseStream (group * 6)
  accumulate pairs (ops.scorePair aChunk pChunk (group * 16)) acc

def rawDotIntScalar (ops : DotOperands) (numPairs : Nat) : Run Int :=
  (List.range (numPairs / 8)).foldlM (fun acc group => ops.scoreGroup group 8 acc) 0

/-- Eight bytes that all lie in the stream. -/
def readUnaligned (stream : Bytes) (start : Nat) : Run Nat :=
  check (start + 8 ≤ stream.length) (getLittleEndian (slice stream start 8))

def copyBytes (stream : Bytes) (start count : Nat) : Run Nat :=
  check (start + count ≤ stream.length) (getLittleEndian (slice stream start count))

def neonGroup (ops : DotOperands) (aChunk pChunk qStart : Nat) :
    Run (Register 8 × Register 8) := do
  let aVal := vqtbl ops.ampTable (ampIndex aChunk ·)
  let cVal := vqtbl ops.cosTable (phaseIndex pChunk ·)
  let sVal := vqtbl ops.sinTable (phaseIndex pChunk ·)
  let qPair ← vld2 ops.q qStart
  let qc16 ← vmullS8 qPair.1 cVal
  let qcs16 ← vmlalS8 qc16 qPair.2 sVal
  let ip ← vqshrnNS16 qcs16 7
  return (ip, aVal)

def neonStep (ops : DotOperands) (group : Nat) (acc : Register 2) : Run (Register 2) := do
  let aChunk ← readUnaligned ops.ampStream (group * 5)
  let pChunk ← readUnaligned ops.phaseStream (group * 6)
  let (ip, aVal) ← ops.neonGroup aChunk pChunk (group * 16)
  sdot acc ip aVal

def rawDotIntNeon (ops : DotOperands) (numPairs : Nat) : Run Int := do
  let safeGroups := numPairs / 8 - 1
  let (acc0, acc1) ← inTurn ops.neonStep safeGroups (0, 0)
  -- The last group is copied, since eight bytes would pass the end of its streams.
  let aChunk ← copyBytes ops.ampStream (safeGroups * 5) 5
  let pChunk ← copyBytes ops.phaseStream (safeGroups * 6) 6
  let (ip, aVal) ← ops.neonGroup aChunk pChunk (safeGroups * 16)
  let acc0 ← sdot acc0 ip aVal
  let acc ← vaddS32 acc0 acc1
  return acc 0 + acc 1

/-! ### AVX2 -/

/-- The even bytes first, and then the odd ones. -/
def qSplitMask : Fin 16 → Nat := fun lane => if lane.val < 8 then 2 * lane else 2 * (lane - 8) + 1

/-- The low eight bytes of a register are loaded. -/
def loadl (values : Fin 8 → Int) : Register 16 :=
  fun lane => if inside : lane.val < 8 then values ⟨lane, inside⟩ else 0

def processGroupFromChunks (ops : DotOperands) (aChunk pChunk qStart : Nat) :
    Run (Register 8) := do
  let aVals : Fin 8 → Int := fun lane => ops.ampTable.getD (ampIndex aChunk lane) 0
  let cVals : Fin 8 → Int := fun lane => ops.cosTable.getD (phaseIndex pChunk lane) 0
  let sVals : Fin 8 → Int := fun lane => ops.sinTable.getD (phaseIndex pChunk lane) 0
  let q16 ← load 16 ops.q qStart
  let qSplit := mmShuffleEpi8 q16 qSplitMask
  let qRe := mmCvtepi8Epi16 qSplit
  let qIm := mmCvtepi8Epi16 (mmSrliSi128 qSplit 8)
  let c := mmCvtepi8Epi16 (loadl cVals)
  let s := mmCvtepi8Epi16 (loadl sVals)
  let innerLo ← mmMaddEpi16 (mmUnpackloEpi16 qRe qIm) (mmUnpackloEpi16 c s)
  let innerHi ← mmMaddEpi16 (mmUnpackhiEpi16 qRe qIm) (mmUnpackhiEpi16 c s)
  let qcs16 ← mmPacksEpi32 innerLo innerHi
  let biased ← mmAddEpi16 qcs16 fun _ => 2 ^ 6
  let shifted := mmSraiEpi16 biased 7
  let ip ← mmPacksEpi16 shifted shifted
  mm256MulloEpi32 (mm256Cvtepi8Epi32 ip) (mm256Cvtepi8Epi32 (loadl aVals))

def avx2Step (ops : DotOperands) (group : Nat) (acc : Register 8) : Run (Register 8) := do
  let aChunk ← readUnaligned ops.ampStream (group * 5)
  let pChunk ← readUnaligned ops.phaseStream (group * 6)
  let prod ← ops.processGroupFromChunks aChunk pChunk (group * 16)
  addEpi32 acc prod

def rawDotIntAvx2 (ops : DotOperands) (numPairs : Nat) : Run Int := do
  let safeGroups := numPairs / 8 - 1
  let (acc0, acc1) ← inTurn ops.avx2Step safeGroups (0, 0)
  let aChunk ← copyBytes ops.ampStream (safeGroups * 5) 5
  let pChunk ← copyBytes ops.phaseStream (safeGroups * 6) 6
  let prod ← ops.processGroupFromChunks aChunk pChunk (safeGroups * 16)
  let acc0 ← addEpi32 acc0 prod
  let acc ← addEpi32 acc0 acc1
  let s4 ← addEpi32 (mm256Castsi256Si128 acc) (mm256Extracti128High acc)
  let s2 ← addEpi32 s4 (mmShuffleEpi32 s4 0b00001110)
  let s1 ← addEpi32 s2 (mmShuffleEpi32 s2 0b00000001)
  return s1 0

/-! ### The pairs one by one -/

/-- What the tables and the query may have for a number of pairs. -/
structure Fit (ops : DotOperands) (numPairs : Nat) : Prop where
  ampTable : ops.ampTable.length = 32
  cosTable : ops.cosTable.length = 64
  sinTable : ops.sinTable.length = 64
  amp : ∀ a ∈ ops.ampTable, 0 ≤ a ∧ a ≤ 127
  cos : ∀ c ∈ ops.cosTable, -63 ≤ c ∧ c ≤ 63
  sin : ∀ s ∈ ops.sinTable, -63 ≤ s ∧ s ≤ 63
  ampStream : numPairs * 5 ≤ 8 * ops.ampStream.length
  phaseStream : numPairs * 6 ≤ 8 * ops.phaseStream.length
  q : 2 * numPairs ≤ ops.q.length
  range : ∀ x ∈ ops.q, -127 ≤ x ∧ x ≤ 127

def ampCode (ops : DotOperands) (pair : Nat) : Nat := field 5 (getLittleEndian ops.ampStream) pair

def phaseCode (ops : DotOperands) (pair : Nat) : Nat :=
  field 6 (getLittleEndian ops.phaseStream) pair

def level (ops : DotOperands) (pair : Nat) : Int := ops.ampTable.getD (ops.ampCode pair) 0

def inner (ops : DotOperands) (pair : Nat) : Int :=
  ops.q.getD (2 * pair) 0 * ops.cosTable.getD (ops.phaseCode pair) 0 +
    ops.q.getD (2 * pair + 1) 0 * ops.sinTable.getD (ops.phaseCode pair) 0

def rounded (x : Int) : Int := (x + 2 ^ 6) / 2 ^ 7

def truncated (x : Int) : Int := x / 2 ^ 7

variable {ops : DotOperands} {numPairs group : Nat}

theorem ampIndex_eq (chunk place : Nat) : ampIndex chunk place = field 5 chunk place := by
  unfold ampIndex field
  rw [show 0x1F = 2 ^ 5 - 1 by decide, Nat.and_two_pow_sub_one_eq_mod, Nat.shiftRight_eq_div_pow,
    Nat.mul_comm]

theorem phaseIndex_eq (chunk place : Nat) : phaseIndex chunk place = field 6 chunk place := by
  unfold phaseIndex field
  rw [show 0x3F = 2 ^ 6 - 1 by decide, Nat.and_two_pow_sub_one_eq_mod, Nat.shiftRight_eq_div_pow,
    Nat.mul_comm]

/-- The chunks have the codes of the first `pairs` pairs of the group. -/
def Chunks (ops : DotOperands) (group pairs aChunk pChunk : Nat) : Prop :=
  ∀ place < pairs, ampIndex aChunk place = ops.ampCode (8 * group + place) ∧
    phaseIndex pChunk place = ops.phaseCode (8 * group + place)

theorem chunks_slice (ops : DotOperands) (group pairs ampWidth phaseWidth : Nat)
    (amp : pairs * 5 ≤ 8 * ampWidth) (phase : pairs * 6 ≤ 8 * phaseWidth) :
    ops.Chunks group pairs (getLittleEndian (slice ops.ampStream (group * 5) ampWidth))
      (getLittleEndian (slice ops.phaseStream (group * 6) phaseWidth)) := by
  intro place inside
  rw [ampIndex_eq, phaseIndex_eq, Nat.mul_comm group, Nat.mul_comm group,
    field_slice (by omega), field_slice (by omega)]
  exact ⟨rfl, rfl⟩

/-! ### Bounds -/

namespace Fit

theorem ampCode_lt (fit : ops.Fit numPairs) (pair : Nat) :
    ops.ampCode pair < ops.ampTable.length := by
  rw [fit.ampTable]
  exact field_lt ..

theorem cosCode_lt (fit : ops.Fit numPairs) (pair : Nat) :
    ops.phaseCode pair < ops.cosTable.length := by
  rw [fit.cosTable]
  exact field_lt ..

theorem sinCode_lt (fit : ops.Fit numPairs) (pair : Nat) :
    ops.phaseCode pair < ops.sinTable.length := by
  rw [fit.sinTable]
  exact field_lt ..

theorem getD_mem {values : List Int} {place : Nat} (inside : place < values.length) :
    values.getD place 0 ∈ values := by
  rw [List.getD_eq_getElem values 0 inside]
  exact List.getElem_mem inside

theorem level (fit : ops.Fit numPairs) (pair : Nat) :
    0 ≤ ops.level pair ∧ ops.level pair ≤ 127 :=
  fit.amp _ (getD_mem (fit.ampCode_lt pair))

theorem cosine (fit : ops.Fit numPairs) (pair : Nat) :
    -63 ≤ ops.cosTable.getD (ops.phaseCode pair) 0 ∧
      ops.cosTable.getD (ops.phaseCode pair) 0 ≤ 63 :=
  fit.cos _ (getD_mem (fit.cosCode_lt pair))

theorem sine (fit : ops.Fit numPairs) (pair : Nat) :
    -63 ≤ ops.sinTable.getD (ops.phaseCode pair) 0 ∧
      ops.sinTable.getD (ops.phaseCode pair) 0 ≤ 63 :=
  fit.sin _ (getD_mem (fit.sinCode_lt pair))

theorem query (fit : ops.Fit numPairs) {place : Nat} (inside : place < 2 * numPairs) :
    -127 ≤ ops.q.getD place 0 ∧ ops.q.getD place 0 ≤ 127 :=
  fit.range _ (getD_mem (inside.trans_le fit.q))

/-- A product of two bounded numbers. -/
theorem mul_bounds {x y bound limit : Int} (left : -bound ≤ x ∧ x ≤ bound)
    (right : -limit ≤ y ∧ y ≤ limit) : -(bound * limit) ≤ x * y ∧ x * y ≤ bound * limit := by
  rw [← abs_le] at *
  rw [abs_mul]
  exact mul_le_mul left right (abs_nonneg _) ((abs_nonneg _).trans left)

theorem real (fit : ops.Fit numPairs) {pair : Nat} (inside : pair < numPairs) :
    -8001 ≤ ops.q.getD (2 * pair) 0 * ops.cosTable.getD (ops.phaseCode pair) 0 ∧
      ops.q.getD (2 * pair) 0 * ops.cosTable.getD (ops.phaseCode pair) 0 ≤ 8001 :=
  mul_bounds (fit.query (by omega)) (fit.cosine pair)

theorem inner (fit : ops.Fit numPairs) {pair : Nat} (inside : pair < numPairs) :
    -16002 ≤ ops.inner pair ∧ ops.inner pair ≤ 16002 := by
  have real := fit.real inside
  have imaginary := mul_bounds (fit.query (show 2 * pair + 1 < 2 * numPairs by omega))
    (fit.sine pair)
  unfold DotOperands.inner
  omega

theorem rounded (fit : ops.Fit numPairs) {pair : Nat} (inside : pair < numPairs) :
    -126 ≤ rounded (ops.inner pair) ∧ DotOperands.rounded (ops.inner pair) ≤ 126 := by
  have inner := fit.inner inside
  unfold DotOperands.rounded
  omega

theorem truncated (fit : ops.Fit numPairs) {pair : Nat} (inside : pair < numPairs) :
    -126 ≤ truncated (ops.inner pair) ∧ DotOperands.truncated (ops.inner pair) ≤ 126 := by
  have inner := fit.inner inside
  unfold DotOperands.truncated
  omega

theorem product (fit : ops.Fit numPairs) (pair : Nat) {x : Int} (bounds : -126 ≤ x ∧ x ≤ 126) :
    -16002 ≤ x * ops.level pair ∧ x * ops.level pair ≤ 16002 := by
  have level := fit.level pair
  exact mul_bounds bounds ⟨by omega, level.2⟩

end Fit

/-! ### The scalar loop -/

theorem accumulate_eq {count : Nat} {term : Nat → Run Int} {value : Nat → Int}
    (terms : ∀ place < count, term place = exactly (value place)) (acc : Int) :
    accumulate count term acc = exactly (acc + ∑ place ∈ Finset.range count, value place) := by
  refine foldlM_sum (fun place inside sum => ?_) acc
  rw [terms place inside, exactly_bind]
  rfl

theorem readAt_eq {memory : List Int} {place : Nat} (inside : place < memory.length) :
    readAt memory place = exactly (memory.getD place 0) :=
  check_eq inside _

/-- What a pair adds to the scalar sum. -/
def scalarTerm (ops : DotOperands) (pair : Nat) : Int :=
  rounded (ops.inner pair) * ops.level pair

theorem scorePair_eq (fit : ops.Fit numPairs) {pairs aChunk pChunk place : Nat}
    (chunks : ops.Chunks group pairs aChunk pChunk) (inside : place < pairs)
    (known : 8 * group + place < numPairs) :
    ops.scorePair aChunk pChunk (group * 16) place =
      exactly (ops.scalarTerm (8 * group + place)) := by
  obtain ⟨amp, phase⟩ := chunks place inside
  have both := fit.q
  have bounds := fit.rounded known
  have real : group * 16 + place * 2 = 2 * (8 * group + place) := by omega
  unfold scorePair
  rw [amp, phase, real, readAt_eq (fit.ampCode_lt _), readAt_eq (fit.cosCode_lt _),
    readAt_eq (fit.sinCode_lt _), readAt_eq (by omega), readAt_eq (by omega)]
  simp only [exactly_bind]
  change exactly (max (-128) (min 127 (rounded (ops.inner (8 * group + place)))) * _) = _
  rw [min_eq_right (by omega), max_eq_right (by omega)]
  rfl

theorem scoreGroup_eq (fit : ops.Fit numPairs) {pairs : Nat} (few : pairs ≤ 8)
    (inside : 8 * group + pairs ≤ numPairs) (acc : Int) :
    ops.scoreGroup group pairs acc = exactly
      (acc + ∑ place ∈ Finset.range pairs, ops.scalarTerm (8 * group + place)) := by
  have amp := fit.ampStream
  have phase := fit.phaseStream
  have chunks := chunks_slice ops group pairs 8 8 (by omega) (by omega)
  unfold scoreGroup loadPadded
  rw [check_eq (by omega), check_eq (by omega), exactly_bind, exactly_bind]
  refine accumulate_eq (fun place less => ?_) acc
  exact scorePair_eq fit chunks less (by omega)

theorem sum_groups {M : Type} [AddCommMonoid M] (term : Nat → M) (groups : Nat) :
    ∑ group ∈ Finset.range groups, ∑ place ∈ Finset.range 8, term (8 * group + place) =
      ∑ pair ∈ Finset.range (8 * groups), term pair := by
  induction groups with
  | zero => rfl
  | succ groups ih =>
      rw [Finset.sum_range_succ, ih, Nat.mul_succ, Finset.sum_range_add]

theorem scalarGroups_eq (fit : ops.Fit numPairs) {groups : Nat} (inside : 8 * groups ≤ numPairs) :
    (List.range groups).foldlM (fun acc group => ops.scoreGroup group 8 acc) 0 =
      exactly (∑ pair ∈ Finset.range (8 * groups), ops.scalarTerm pair) := by
  have each (group : Nat) (less : group < groups) (sum : Int) : ops.scoreGroup group 8 sum =
      exactly (sum + ∑ place ∈ Finset.range 8, ops.scalarTerm (8 * group + place)) :=
    scoreGroup_eq fit le_rfl (by omega) sum
  rw [foldlM_sum each 0, sum_groups, Int.zero_add]

theorem rawDotIntScalar_eq (fit : ops.Fit numPairs) : ops.rawDotIntScalar numPairs =
    exactly (∑ pair ∈ Finset.range (8 * (numPairs / 8)), ops.scalarTerm pair) :=
  scalarGroups_eq fit (by omega)

/-! ### NEON -/

/-- The lanes of a group of eight pairs. -/
def lanes (group : Nat) (value : Nat → Int) : Register 8 := fun lane => value (8 * group + lane)

def neonTerm (ops : DotOperands) (pair : Nat) : Int := truncated (ops.inner pair) * ops.level pair

theorem getD_amp {aChunk pChunk : Nat} (chunks : ops.Chunks group 8 aChunk pChunk) (lane : Fin 8) :
    ops.ampTable.getD (ampIndex aChunk lane) 0 = ops.level (8 * group + lane) := by
  rw [(chunks lane lane.isLt).1]
  rfl

theorem neonGroup_eq (fit : ops.Fit numPairs) {aChunk pChunk : Nat}
    (chunks : ops.Chunks group 8 aChunk pChunk) (known : 8 * group + 8 ≤ numPairs) :
    ops.neonGroup aChunk pChunk (group * 16) =
      exactly (lanes group (truncated <| ops.inner ·), lanes group ops.level) := by
  have both := fit.q
  have inside (lane : Fin 8) : 8 * group + lane < numPairs := by omega
  have amp : vqtbl ops.ampTable (ampIndex aChunk ·) = lanes group ops.level :=
    funext fun lane => getD_amp chunks lane
  have cosine : vqtbl ops.cosTable (phaseIndex pChunk ·) =
      lanes group fun pair => ops.cosTable.getD (ops.phaseCode pair) 0 :=
    funext fun lane => congrArg (ops.cosTable.getD · 0) (chunks lane lane.isLt).2
  have sine : vqtbl ops.sinTable (phaseIndex pChunk ·) =
      lanes group fun pair => ops.sinTable.getD (ops.phaseCode pair) 0 :=
    funext fun lane => congrArg (ops.sinTable.getD · 0) (chunks lane lane.isLt).2
  have query : vld2 ops.q (group * 16) = exactly (lanes group fun pair => ops.q.getD (2 * pair) 0,
      lanes group fun pair => ops.q.getD (2 * pair + 1) 0) := by
    unfold vld2
    rw [check_eq (by omega)]
    refine congrArg exactly (Prod.ext (funext fun lane => ?_) (funext fun lane => ?_))
    · exact congrArg (ops.q.getD · 0) (show group * 16 + 2 * lane.val = _ by omega)
    · exact congrArg (ops.q.getD · 0) (show group * 16 + 2 * lane.val + 1 = _ by omega)
  unfold neonGroup
  rw [amp, cosine, sine, query, exactly_bind]
  unfold vmullS8
  rw [wrapping_eq (by decide), exactly_bind]
  · unfold vmlalS8
    rw [wrapping_eq (by decide), exactly_bind]
    · unfold vqshrnNS16
      rw [saturating_eq, exactly_bind]
      · rfl
      · intro lane
        have bounds := fit.truncated (inside lane)
        change Fits 8 (truncated (ops.inner (8 * group + lane)))
        unfold Fits
        omega
    · intro lane
      have bounds := fit.inner (inside lane)
      change Fits 16 (ops.inner (8 * group + lane))
      unfold Fits
      omega
  · intro lane
    have bounds := fit.real (inside lane)
    change Fits 16 (ops.q.getD (2 * (8 * group + lane)) 0 *
      ops.cosTable.getD (ops.phaseCode (8 * group + lane)) 0)
    unfold Fits
    omega

/-- What a group adds to each of the two lanes. -/
def neonLanes (ops : DotOperands) (group : Nat) : Register 2 :=
  fun lane => ∑ part : Fin 4, ops.neonTerm (8 * group + (4 * lane + part))

theorem neonLanes_bounds (fit : ops.Fit numPairs) (known : 8 * group + 8 ≤ numPairs)
    (lane : Fin 2) : |ops.neonLanes group lane| ≤ 64008 := by
  have term (part : Fin 4) :=
    have inside : 8 * group + (4 * lane.val + part.val) < numPairs := by omega
    fit.product (8 * group + (4 * lane.val + part.val)) (fit.truncated inside)
  have first := term 0
  have second := term 1
  have third := term 2
  have fourth := term 3
  unfold neonLanes neonTerm
  rw [Fin.sum_univ_four, abs_le]
  omega

theorem sdot_eq (fit : ops.Fit numPairs) (known : 8 * group + 8 ≤ numPairs) {acc : Register 2}
    (room : ∀ lane, |acc lane| ≤ 2 ^ 30) :
    sdot acc (lanes group (truncated <| ops.inner ·)) (lanes group ops.level) =
      exactly fun lane => acc lane + ops.neonLanes group lane := by
  unfold sdot
  refine wrapping_eq (by decide) fun lane => ?_
  have new := neonLanes_bounds fit known lane
  have old := room lane
  change Fits 32 (acc lane + ops.neonLanes group lane)
  rw [abs_le] at new old
  unfold Fits
  omega

theorem readUnaligned_eq {stream : Bytes} {start : Nat} (inside : start + 8 ≤ stream.length) :
    readUnaligned stream start = exactly (getLittleEndian (slice stream start 8)) :=
  check_eq inside _

theorem copyBytes_eq {stream : Bytes} {start count : Nat} (inside : start + count ≤ stream.length) :
    copyBytes stream start count = exactly (getLittleEndian (slice stream start count)) :=
  check_eq inside _

theorem neonStep_eq (fit : ops.Fit numPairs) (known : 8 * group + 16 ≤ numPairs) {acc : Register 2}
    (room : ∀ lane, |acc lane| ≤ 2 ^ 30) :
    ops.neonStep group acc = exactly fun lane => acc lane + ops.neonLanes group lane := by
  have amp := fit.ampStream
  have phase := fit.phaseStream
  have chunks := chunks_slice ops group 8 8 8 (by omega) (by omega)
  unfold neonStep
  rw [readUnaligned_eq (by omega), readUnaligned_eq (by omega), exactly_bind, exactly_bind,
    neonGroup_eq fit chunks (by omega), exactly_bind]
  exact sdot_eq fit (by omega) room

theorem sum_lanes (term : Nat → Int) (group : Nat) :
    ∑ place ∈ Finset.range 8, term (8 * group + place) =
      (∑ part : Fin 4, term (8 * group + (4 * (0 : Fin 2) + part))) +
        ∑ part : Fin 4, term (8 * group + (4 * (1 : Fin 2) + part)) := by
  simp only [Fin.sum_univ_four, Finset.sum_range_succ, Finset.sum_range_zero]
  simp [Int.add_assoc]

/-- The two lanes of all the groups have all the pairs. -/
theorem sum_neonLanes (ops : DotOperands) (groups : Nat) :
    ∑ group ∈ Finset.range groups, ops.neonLanes group 0 +
        ∑ group ∈ Finset.range groups, ops.neonLanes group 1 =
      ∑ pair ∈ Finset.range (8 * groups), ops.neonTerm pair := by
  rw [← sum_groups, ← Finset.sum_add_distrib]
  exact Finset.sum_congr rfl fun group _ => (sum_lanes ops.neonTerm group).symm

theorem rawDotIntNeon_eq (fit : ops.Fit numPairs) (some : 8 ≤ numPairs) (few : numPairs ≤ 32767) :
    ops.rawDotIntNeon numPairs =
      exactly (∑ pair ∈ Finset.range (8 * (numPairs / 8)), ops.neonTerm pair) := by
  have amp := fit.ampStream
  have phase := fit.phaseStream
  obtain ⟨safe, groups⟩ : ∃ safe, numPairs / 8 = safe + 1 := ⟨numPairs / 8 - 1, by omega⟩
  have chunks := chunks_slice ops safe 8 5 6 (by omega) (by omega)
  have limit : (safe : Int) * 64008 ≤ 2 ^ 30 := by omega
  obtain ⟨first, second, ran, sums⟩ := inTurn_spec ops.neonStep ops.neonLanes 64008 safe (by decide)
    (fun group inside lane => neonLanes_bounds fit (by omega) lane)
    (fun group inside acc room => neonStep_eq fit (by omega) fun lane => (room lane).trans limit)
  have last (lane : Fin 2) : |ops.neonLanes safe lane| ≤ 64008 :=
    neonLanes_bounds fit (by omega) lane
  unfold rawDotIntNeon
  simp only [groups, Nat.add_sub_cancel]
  rw [ran, exactly_bind]
  dsimp only
  rw [copyBytes_eq (by omega), copyBytes_eq (by omega), exactly_bind, exactly_bind,
    neonGroup_eq fit chunks (by omega), exactly_bind]
  dsimp only
  rw [sdot_eq fit (by omega) fun lane => (sums lane).2.1.trans limit, exactly_bind]
  unfold vaddS32
  rw [wrapping_eq (by decide), exactly_bind]
  · refine congrArg exactly ?_
    have left := (sums 0).1
    have right := (sums 1).1
    rw [← sum_neonLanes, Finset.sum_range_succ, Finset.sum_range_succ, ← left, ← right]
    ring
  · intro lane
    have old := sums lane
    have new := last lane
    rw [abs_le, abs_le] at old
    rw [abs_le] at new
    change Fits 32 (first lane + ops.neonLanes safe lane + second lane)
    unfold Fits
    omega

/-! ### AVX2 -/

theorem fits_inner (fit : ops.Fit numPairs) {pair : Nat} (inside : pair < numPairs) :
    Fits 32 (ops.inner pair) ∧ Fits 16 (ops.inner pair) ∧ Fits 16 (ops.inner pair + 2 ^ 6) := by
  have bounds := fit.inner inside
  unfold Fits
  omega

theorem loadl_eq {values : Fin 8 → Int} (value : Nat → Int)
    (same : ∀ lane, values lane = value (8 * group + lane)) :
    mmCvtepi8Epi16 (loadl values) = lanes group value ∧
      mm256Cvtepi8Epi32 (loadl values) = lanes group value := by
  have low (lane : Fin 8) : loadl values ⟨lane, by omega⟩ = value (8 * group + lane) :=
    (dif_pos lane.isLt).trans (same lane)
  exact ⟨funext low, funext low⟩

theorem split_eq (ops : DotOperands) (group : Nat) :
    let q16 : Register 16 := fun lane => ops.q.getD (group * 16 + lane) 0
    mmCvtepi8Epi16 (mmShuffleEpi8 q16 qSplitMask) =
        lanes group (fun pair => ops.q.getD (2 * pair) 0) ∧
      mmCvtepi8Epi16 (mmSrliSi128 (mmShuffleEpi8 q16 qSplitMask) 8) =
        lanes group (fun pair => ops.q.getD (2 * pair + 1) 0) := by
  intro q16
  constructor
  · funext lane
    have low : qSplitMask ⟨lane, by omega⟩ = 2 * lane.val := if_pos lane.isLt
    unfold mmCvtepi8Epi16 mmShuffleEpi8
    simp only [low]
    rw [if_neg (by omega)]
    exact congrArg (ops.q.getD · 0) (show group * 16 + 2 * lane.val % 16 = _ by omega)
  · funext lane
    have high : qSplitMask ⟨lane + 8, by omega⟩ = 2 * lane.val + 1 :=
      (if_neg (by simp)).trans (by simp)
    unfold mmCvtepi8Epi16 mmSrliSi128
    rw [dif_pos (show lane.val + 8 < 16 by omega)]
    unfold mmShuffleEpi8
    simp only [high]
    rw [if_neg (by omega)]
    exact congrArg (ops.q.getD · 0) (show group * 16 + (2 * lane.val + 1) % 16 = _ by omega)

theorem processGroupFromChunks_eq (fit : ops.Fit numPairs) {aChunk pChunk : Nat}
    (chunks : ops.Chunks group 8 aChunk pChunk) (known : 8 * group + 8 ≤ numPairs) :
    ops.processGroupFromChunks aChunk pChunk (group * 16) =
      exactly (lanes group ops.scalarTerm) := by
  have both := fit.q
  have inside (lane : Fin 8) : 8 * group + lane < numPairs := by omega
  have amp := (loadl_eq ops.level (getD_amp chunks)).2
  have cosine := (loadl_eq (fun pair => ops.cosTable.getD (ops.phaseCode pair) 0)
    fun lane => congrArg (ops.cosTable.getD · 0) (chunks lane lane.isLt).2).1
  have sine := (loadl_eq (fun pair => ops.sinTable.getD (ops.phaseCode pair) 0)
    fun lane => congrArg (ops.sinTable.getD · 0) (chunks lane lane.isLt).2).1
  have query : load 16 ops.q (group * 16) =
      exactly fun lane : Fin 16 => ops.q.getD (group * 16 + lane) 0 := check_eq (by omega) _
  unfold processGroupFromChunks
  dsimp only
  rw [query, exactly_bind, (split_eq ops group).1, (split_eq ops group).2, amp, cosine, sine,
    madd_unpacklo, exactly_bind, madd_unpackhi, exactly_bind]
  · have packed : mmPacksEpi32 (fun lane => ops.inner (8 * group + lane))
        (fun lane => ops.inner (8 * group + (4 + lane))) = exactly (lanes group ops.inner) := by
      unfold mmPacksEpi32
      have same : (fun lane : Fin 8 => if lane.val < 4 then ops.inner (8 * group + lane)
          else ops.inner (8 * group + (4 + (lane - 4)))) = lanes group ops.inner := by
        funext lane
        split
        · rfl
        · exact congrArg ops.inner (by omega)
      change saturating 16 (fun lane : Fin 8 => if lane.val < 4 then ops.inner (8 * group + lane)
          else ops.inner (8 * group + (4 + (lane - 4)))) = _
      rw [same]
      exact saturating_eq fun lane => (fits_inner fit (inside lane)).2.1
    change (mmPacksEpi32 (fun lane => ops.inner (8 * group + lane))
      (fun lane => ops.inner (8 * group + (4 + lane))) >>= _) = _
    rw [packed, exactly_bind]
    have biased : mmAddEpi16 (lanes group ops.inner) (fun _ => 2 ^ 6) =
        exactly fun lane => lanes group ops.inner lane + 2 ^ 6 :=
      wrapping_eq (by decide) fun lane => (fits_inner fit (inside lane)).2.2
    rw [biased, exactly_bind]
    have narrowed : mmPacksEpi16 (mmSraiEpi16 (fun lane => lanes group ops.inner lane + 2 ^ 6) 7)
        (mmSraiEpi16 (fun lane => lanes group ops.inner lane + 2 ^ 6) 7) =
          exactly fun lane : Fin 16 => rounded (ops.inner (8 * group + lane % 8)) := by
      unfold mmPacksEpi16
      have same : (fun lane : Fin 16 => if lane.val < 8 then rounded (ops.inner (8 * group + lane))
          else rounded (ops.inner (8 * group + (lane - 8)))) =
            fun lane : Fin 16 => rounded (ops.inner (8 * group + lane % 8)) := by
        funext lane
        split
        · rw [Nat.mod_eq_of_lt (by omega)]
        · rw [show lane.val % 8 = lane.val - 8 by omega]
      change saturating 8 (fun lane : Fin 16 => if lane.val < 8
          then rounded (ops.inner (8 * group + lane))
          else rounded (ops.inner (8 * group + (lane - 8)))) = _
      rw [same]
      refine saturating_eq fun lane => ?_
      have bounds := fit.rounded (show 8 * group + lane.val % 8 < numPairs by omega)
      unfold Fits
      omega
    rw [narrowed, exactly_bind]
    unfold mm256MulloEpi32
    have same : (fun lane => mm256Cvtepi8Epi32
        (fun lane => rounded (ops.inner (8 * group + lane.val % 8))) lane *
          lanes group ops.level lane) = lanes group ops.scalarTerm := by
      funext lane
      unfold mm256Cvtepi8Epi32 lanes scalarTerm
      simp only [Nat.mod_eq_of_lt lane.isLt]
    rw [same]
    refine wrapping_eq (by decide) fun lane => ?_
    have bounds := fit.product (8 * group + lane.val) (fit.rounded (inside lane))
    change Fits 32 (rounded (ops.inner (8 * group + lane)) * ops.level (8 * group + lane))
    unfold Fits
    omega
  · intro lane
    exact (fits_inner fit (inside ⟨4 + lane, by omega⟩)).1
  · intro lane
    exact (fits_inner fit (inside ⟨lane, by omega⟩)).1

theorem scalarTerm_bounds (fit : ops.Fit numPairs) (known : 8 * group + 8 ≤ numPairs)
    (lane : Fin 8) : |lanes group ops.scalarTerm lane| ≤ 16002 := by
  have inside : 8 * group + lane.val < numPairs := by omega
  exact abs_le.mpr (fit.product (8 * group + lane.val) (fit.rounded inside))

theorem avx2Step_eq (fit : ops.Fit numPairs) (known : 8 * group + 16 ≤ numPairs) {acc : Register 8}
    (room : ∀ lane, |acc lane| ≤ 2 ^ 26) :
    ops.avx2Step group acc = exactly fun lane => acc lane + lanes group ops.scalarTerm lane := by
  have amp := fit.ampStream
  have phase := fit.phaseStream
  have chunks := chunks_slice ops group 8 8 8 (by omega) (by omega)
  unfold avx2Step
  rw [readUnaligned_eq (by omega), readUnaligned_eq (by omega), exactly_bind, exactly_bind,
    processGroupFromChunks_eq fit chunks (by omega), exactly_bind]
  refine addEpi32_eq fun lane => ?_
  have new := abs_le.mp (scalarTerm_bounds fit (show 8 * group + 8 ≤ numPairs by omega) lane)
  have old := abs_le.mp (room lane)
  rw [abs_lt]
  omega

theorem rawDotIntAvx2_eq (fit : ops.Fit numPairs) (some : 8 ≤ numPairs) (few : numPairs ≤ 32767) :
    ops.rawDotIntAvx2 numPairs =
      exactly (∑ pair ∈ Finset.range (8 * (numPairs / 8)), ops.scalarTerm pair) := by
  have amp := fit.ampStream
  have phase := fit.phaseStream
  obtain ⟨safe, groups⟩ : ∃ safe, numPairs / 8 = safe + 1 := ⟨numPairs / 8 - 1, by omega⟩
  have chunks := chunks_slice ops safe 8 5 6 (by omega) (by omega)
  have limit : (safe : Int) * 16002 ≤ 2 ^ 26 := by omega
  obtain ⟨first, second, ran, sums⟩ := inTurn_spec ops.avx2Step
    (fun group => lanes group ops.scalarTerm) 16002 safe (by decide)
    (fun group inside lane => scalarTerm_bounds fit (by omega) lane)
    (fun group inside acc room => avx2Step_eq fit (by omega) fun lane => (room lane).trans limit)
  have last (lane : Fin 8) : |lanes safe ops.scalarTerm lane| ≤ 16002 :=
    scalarTerm_bounds fit (by omega) lane
  have bounds (lane : Fin 8) : |first lane + lanes safe ops.scalarTerm lane| ≤ 2 ^ 26 + 2 ^ 14 ∧
      |first lane + lanes safe ops.scalarTerm lane + second lane| ≤ 2 ^ 27 := by
    have left := abs_le.mp (sums lane).2.1
    have right := abs_le.mp (sums lane).2.2
    have new := abs_le.mp (last lane)
    rw [abs_le, abs_le]
    omega
  unfold rawDotIntAvx2
  simp only [groups, Nat.add_sub_cancel]
  rw [ran, exactly_bind]
  dsimp only
  rw [copyBytes_eq (by omega), copyBytes_eq (by omega), exactly_bind, exactly_bind,
    processGroupFromChunks_eq fit chunks (by omega), exactly_bind, addEpi32_eq, exactly_bind,
    addEpi32_eq, exactly_bind, horizontalAdd_eq fun lane => (bounds lane).2]
  · refine congrArg exactly ?_
    have each (lane : Fin 8) : first lane + lanes safe ops.scalarTerm lane + second lane =
        ∑ step ∈ Finset.range (safe + 1), lanes step ops.scalarTerm lane := by
      rw [Finset.sum_range_succ, ← (sums lane).1]
      ring
    rw [← sum_groups, Finset.sum_congr rfl fun lane _ => each lane, Finset.sum_comm]
    refine Finset.sum_congr rfl fun group _ => ?_
    exact Fin.sum_univ_eq_sum_range (fun place => ops.scalarTerm (8 * group + place)) 8
  · intro lane
    have bound := (bounds lane).2
    exact bound.trans_lt (by decide)
  · intro lane
    have bound := (bounds lane).1
    exact bound.trans_lt (by decide)

/-! ### When the kernels agree -/

/-- The kernels return the integer of the scalar loop, and no lane of them wraps or saturates. -/
def KernelsAgree (ops : DotOperands) (numPairs : Nat) : Prop :=
  ∃ total, ops.rawDotIntScalar numPairs = exactly total ∧
    ops.rawDotIntNeon numPairs = exactly total ∧ ops.rawDotIntAvx2 numPairs = exactly total

theorem rounded_sub_truncated (x : Int) :
    0 ≤ rounded x - truncated x ∧ (rounded x - truncated x = 0 ↔ x % 128 < 64) := by
  unfold rounded truncated
  omega

/-- The shift that narrows the lanes does not round on NEON, so a pair whose product has a
remainder of a half or more makes the sum smaller there, unless its level is zero. -/
theorem kernelsAgree_iff (ops : DotOperands) (numPairs : Nat) (fit : ops.Fit numPairs)
    (whole : numPairs % 8 = 0) (some : 0 < numPairs) (few : numPairs ≤ 32767) :
    ops.KernelsAgree numPairs ↔
      ∀ pair < numPairs, ops.level pair = 0 ∨ ops.inner pair % 128 < 64 := by
  have all : 8 * (numPairs / 8) = numPairs := by omega
  have lost (pair : Nat) : 0 ≤ ops.scalarTerm pair - ops.neonTerm pair ∧
      (ops.scalarTerm pair - ops.neonTerm pair = 0 ↔
        ops.level pair = 0 ∨ ops.inner pair % 128 < 64) := by
    obtain ⟨less, same⟩ := rounded_sub_truncated (ops.inner pair)
    have level := (fit.level pair).1
    have difference : ops.scalarTerm pair - ops.neonTerm pair =
        (rounded (ops.inner pair) - truncated (ops.inner pair)) * ops.level pair := by
      unfold scalarTerm neonTerm
      ring
    rw [difference, mul_eq_zero, same]
    exact ⟨mul_nonneg less level, or_comm⟩
  unfold KernelsAgree
  rw [rawDotIntScalar_eq fit, rawDotIntNeon_eq fit (by omega) few,
    rawDotIntAvx2_eq fit (by omega) few, all]
  constructor
  · rintro ⟨total, scalar, neon, _⟩
    have same := congrArg Run.value (scalar.trans neon.symm)
    have none : ∑ pair ∈ Finset.range numPairs, (ops.scalarTerm pair - ops.neonTerm pair) = 0 := by
      rw [Finset.sum_sub_distrib]
      exact sub_eq_zero.mpr same
    intro pair inside
    refine (lost pair).2.mp ?_
    exact (Finset.sum_eq_zero_iff_of_nonneg fun pair _ => (lost pair).1).mp none pair
      (Finset.mem_range.mpr inside)
  · intro agreed
    refine ⟨_, rfl, congrArg exactly ?_, rfl⟩
    refine Finset.sum_congr rfl fun pair member => ?_
    have same := (lost pair).2.mpr (agreed pair (Finset.mem_range.mp member))
    omega

/-- Eight pairs whose products are all just a half. -/
def halves : DotOperands where
  ampTable := List.replicate 32 127
  cosTable := List.replicate 64 1
  sinTable := List.replicate 64 0
  ampStream := List.replicate 5 0
  phaseStream := List.replicate 6 0
  q := List.replicate 16 64

theorem halves_fit : halves.Fit 8 := by
  constructor <;> simp [halves]

theorem halves_differ : halves.Fit 8 ∧ ¬halves.KernelsAgree 8 := by
  refine ⟨halves_fit, ?_⟩
  rintro ⟨total, scalar, neon, _⟩
  have same : halves.rawDotIntScalar 8 = halves.rawDotIntNeon 8 := scalar.trans neon.symm
  exact absurd same (by decide)

theorem halves_agree_iff : halves.KernelsAgree 8 ↔
    ∀ pair < 8, halves.level pair = 0 ∨ halves.inner pair % 128 < 64 :=
  kernelsAgree_iff halves 8 halves_fit (by decide) (by decide) (by decide)

end DotOperands

end Valise
