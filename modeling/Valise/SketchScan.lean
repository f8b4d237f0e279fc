import Valise.CatalogRows
import Valise.Library.Selection

/-!
The scan of all sketches for the nearest ones: distances are counted chunk by chunk, and the counts
give the distance up to which rows are kept.
-/

namespace Valise.SketchScan

open Outcomes Outcomes.Outcome Selections

/-! ### Distances -/

def countOnes (word : UInt64) : Nat := (List.range 64).countP word.toNat.testBit

/-- The bits in which two sketches of the same length differ. -/
def hammingScalar (a b : List UInt64) : Nat := ((a.zipWith (· ^^^ ·) b).map countOnes).sum

/-- The words of a row; words past the end abort. -/
def rowSketch (sketches : List UInt64) (words row : Nat) : Result (List UInt64) :=
  if (row + 1) * words ≤ sketches.length then .ok ((sketches.drop (row * words)).take words)
  else .panic

/-- A count past the end of the histogram aborts. -/
def bump (hist : List Nat) (h : Nat) : Result (List Nat) :=
  match hist[h]? with
  | none => .panic
  | some count => .ok (hist.set h (count + 1))

/-- The slots of the rows from one on, which have 16 bits, and the counts with them. -/
def scanRows (hamming : List UInt64 → List UInt64 → Nat) (sketches : List UInt64) (words : Nat)
    (qSketch : List UInt64) : Nat → Nat → List Nat → Result (List Nat × List Nat)
  | _, 0, hist => .ok ([], hist)
  | row, rows + 1, hist => do
      let sketch ← rowSketch sketches words row
      let h := hamming qSketch sketch
      let hist ← bump hist h
      let (slots, hist) ← scanRows hamming sketches words qSketch (row + 1) rows hist
      .ok (h % 2 ^ 16 :: slots, hist)

def chunkRows : Nat := 4096

/-- The chunks from one on, each with its own counts. -/
def scanChunks (hamming : List UInt64 → List UInt64 → Nat) (sketches : List UInt64) (words : Nat)
    (qSketch : List UInt64) (dim n : Nat) : Nat → Nat → Result (List Nat × List (List Nat))
  | _, 0 => .ok ([], [])
  | chunk, chunks + 1 => do
      let base := chunk * chunkRows
      let (slots, hist) ← scanRows hamming sketches words qSketch base (min chunkRows (n - base))
        (List.replicate (dim + 2) 0)
      let (rest, locals) ← scanChunks hamming sketches words qSketch dim n (chunk + 1) chunks
      .ok (slots ++ rest, hist :: locals)

/-- How the pool splits the chunks among its workers. -/
inductive Split where
  | whole
  | halves (left : Nat) (first second : Split)

def addCounts (a b : List Nat) : List Nat := a.zipWith (· + ·) b

def reduce (dim : Nat) : Split → List (List Nat) → List Nat
  | .whole, locals => locals.foldl addCounts (List.replicate (dim + 2) 0)
  | .halves left first second, locals =>
      addCounts (reduce dim first (locals.take left)) (reduce dim second (locals.drop left))

/-- `parallel` has the split, when there is one. -/
def scanCandidates (hamming : List UInt64 → List UInt64 → Nat) (sketches : List UInt64)
    (words : Nat) (rows : List (UInt32 × Nat)) (qSketch : List UInt64) (ck dim : Nat)
    (parallel : Option Split) : Result (List (VectorId × Nat)) :=
  let n := rows.length
  if n = 0 then .ok []
  else do
    let (hbuf, hist) ← (match parallel with
      | some split => do
          let (hbuf, locals) ← scanChunks hamming sketches words qSketch dim n 0
            ((n + chunkRows - 1) / chunkRows)
          .ok (hbuf, reduce dim split locals)
      | none => scanRows hamming sketches words qSketch 0 n (List.replicate (dim + 2) 0) :
        Result (List Nat × List Nat))
    let (thr, acc) := threshold (ck % 2 ^ 32) (dim + 1) hist 0 0
    .ok (keepWithin thr (ck % 2 ^ 32 - acc)
      ((rows.zip hbuf).map fun item => ((UInt64.ofNat item.1.1.toNat, item.2), item.2)))

def scanCandidatesScalar := scanCandidates hammingScalar

/-! ### Counts -/

variable {hamming : List UInt64 → List UInt64 → Nat} {sketches qSketch : List UInt64}
  {words dim n : Nat}

/-- The distance of a row. -/
def distance (hamming : List UInt64 → List UInt64 → Nat) (sketches : List UInt64) (words : Nat)
    (qSketch : List UInt64) (row : Nat) : Nat :=
  hamming qSketch ((sketches.drop (row * words)).take words)

/-- The rows have all their words, and the dimension bounds their distances. -/
structure Bounded (hamming : List UInt64 → List UInt64 → Nat) (sketches : List UInt64)
    (words : Nat) (qSketch : List UInt64) (dim n : Nat) : Prop where
  inside : n * words ≤ sketches.length
  near : ∀ row < n, distance hamming sketches words qSketch row ≤ dim

/-- Counts of some distances on top of others. -/
def tally (hist distances : List Nat) : List Nat :=
  hist.zipIdx.map fun item => item.1 + distances.count item.2

theorem tally_length (hist distances : List Nat) : (tally hist distances).length = hist.length := by
  simp [tally]

theorem tally_getElem? (hist distances : List Nat) (h : Nat) :
    (tally hist distances)[h]? = hist[h]?.map (· + distances.count h) := by
  unfold tally
  rw [List.getElem?_map, List.getElem?_zipIdx]
  cases hist[h]? with
  | none => rfl
  | some count => simp

theorem tally_nil (hist : List Nat) : tally hist [] = hist := by
  refine List.ext_getElem? fun h => ?_
  rw [tally_getElem?]
  cases hist[h]? with
  | none => rfl
  | some count => simp

theorem tally_append (hist first second : List Nat) :
    tally (tally hist first) second = tally hist (first ++ second) := by
  refine List.ext_getElem? fun h => ?_
  rw [tally_getElem?, tally_getElem?, tally_getElem?, Option.map_map, List.count_append]
  cases hist[h]? with
  | none => rfl
  | some count => simp [Nat.add_assoc]

theorem bump_eq {hist : List Nat} {h : Nat} (inside : h < hist.length) :
    bump hist h = .ok (tally hist [h]) := by
  unfold bump
  rw [List.getElem?_eq_getElem inside]
  refine congrArg Outcome.ok (List.ext_getElem? fun place => ?_)
  rw [tally_getElem?, List.getElem?_set]
  by_cases same : h = place
  · subst same
    simp [inside]
  · rw [if_neg same, List.count_singleton, if_neg (by simpa using same)]
    simp

theorem scanRows_eq {row rows : Nat} {hist : List Nat}
    (bounded : Bounded hamming sketches words qSketch dim n) (inside : row + rows ≤ n)
    (bins : hist.length = dim + 2) :
    scanRows hamming sketches words qSketch row rows hist =
      .ok ((List.range' row rows).map fun row =>
          distance hamming sketches words qSketch row % 2 ^ 16,
        tally hist ((List.range' row rows).map (distance hamming sketches words qSketch))) := by
  induction rows generalizing row hist with
  | zero =>
      rw [List.range'_zero, List.map_nil, List.map_nil, tally_nil]
      rfl
  | succ rows ih =>
      have enough : (row + 1) * words ≤ sketches.length :=
        (Nat.mul_le_mul_right _ (by omega)).trans bounded.inside
      have near := bounded.near row (by omega)
      have here := bump_eq (show distance hamming sketches words qSketch row < hist.length by omega)
      have later := ih (show row + 1 + rows ≤ n by omega)
        ((tally_length hist [distance hamming sketches words qSketch row]).trans bins)
      unfold scanRows rowSketch
      rw [if_pos enough]
      simp only [ok_bind]
      change (bump hist (distance hamming sketches words qSketch row) >>= _) = _
      rw [here, ok_bind, later, ok_bind, tally_append, List.range'_succ]
      rfl

/-! ### Chunks -/

/-- The rows of a chunk, and of the chunks after it. -/
theorem range'_chunk (base size n : Nat) :
    List.range' base (min size (n - base)) ++ List.range' (base + size) (n - (base + size)) =
      List.range' base (n - base) := by
  rcases Nat.le_total size (n - base) with full | last
  · rw [Nat.min_eq_left full, List.range'_append_1,
      show size + (n - (base + size)) = n - base by omega]
  · rw [Nat.min_eq_right last, show n - (base + size) = 0 by omega, List.range'_zero,
      List.append_nil]

/-- Counts that were made apart, and together. -/
theorem foldl_addCounts (zeros : List Nat) (parts : List (List Nat)) (before : List Nat)
    (empty : ∀ count ∈ zeros, count = 0) :
    (parts.map (tally zeros)).foldl addCounts (tally zeros before) =
      tally zeros (before ++ parts.flatten) := by
  have add (first second : List Nat) :
      addCounts (tally zeros first) (tally zeros second) = tally zeros (first ++ second) := by
    refine List.ext_getElem? fun h => ?_
    unfold addCounts
    rw [List.getElem?_zipWith, tally_getElem?, tally_getElem?, tally_getElem?, List.count_append]
    cases found : zeros[h]? with
    | none => rfl
    | some count =>
        obtain rfl := empty count (List.mem_of_getElem? found)
        simp
  induction parts generalizing before with
  | nil => rw [List.flatten_nil, List.append_nil]; rfl
  | cons part parts ih =>
      rw [List.map_cons, List.foldl_cons, add, ih, List.flatten_cons, List.append_assoc]

theorem addCounts_tally (bins : Nat) (first second : List Nat) :
    addCounts (tally (List.replicate bins 0) first) (tally (List.replicate bins 0) second) =
      tally (List.replicate bins 0) (first ++ second) := by
  have both := foldl_addCounts (List.replicate bins 0) [second] first
    fun count member => List.eq_of_mem_replicate member
  simpa using both

/-- However the chunks are split, their counts add up to the same. -/
theorem reduce_eq (split : Split) (parts : List (List Nat)) :
    reduce dim split (parts.map (tally (List.replicate (dim + 2) 0))) =
      tally (List.replicate (dim + 2) 0) parts.flatten := by
  induction split generalizing parts with
  | whole =>
      have all := foldl_addCounts (List.replicate (dim + 2) 0) parts []
        fun count member => List.eq_of_mem_replicate member
      rw [tally_nil, List.nil_append] at all
      exact all
  | halves left first second ihFirst ihSecond =>
      unfold reduce
      rw [← List.map_take, ← List.map_drop, ihFirst, ihSecond, addCounts_tally,
        ← List.flatten_append, List.take_append_drop]

theorem scanChunks_eq (bounded : Bounded hamming sketches words qSketch dim n) {chunk chunks : Nat}
    (all : n ≤ (chunk + chunks) * chunkRows) (last : (chunk + chunks) * chunkRows < n + chunkRows) :
    ∃ parts : List (List Nat),
      scanChunks hamming sketches words qSketch dim n chunk chunks =
        .ok ((List.range' (chunk * chunkRows) (n - chunk * chunkRows)).map fun row =>
            distance hamming sketches words qSketch row % 2 ^ 16,
          parts.map (tally (List.replicate (dim + 2) 0))) ∧
      parts.flatten = (List.range' (chunk * chunkRows) (n - chunk * chunkRows)).map
        (distance hamming sketches words qSketch) := by
  induction chunks generalizing chunk with
  | zero =>
      rw [Nat.add_zero] at all
      refine ⟨[], ?_, ?_⟩
      · rw [Nat.sub_eq_zero_of_le all]
        rfl
      · rw [Nat.sub_eq_zero_of_le all]
        rfl
  | succ chunks ih =>
      rw [show chunk + (chunks + 1) = chunk + 1 + chunks by omega] at all last
      have next : (chunk + 1) * chunkRows = chunk * chunkRows + chunkRows := Nat.succ_mul ..
      have before : (chunk + 1) * chunkRows ≤ (chunk + 1 + chunks) * chunkRows :=
        Nat.mul_le_mul_right _ (Nat.le_add_right ..)
      have rows := scanRows_eq bounded
        (show chunk * chunkRows + min chunkRows (n - chunk * chunkRows) ≤ n by omega)
        (List.length_replicate : (List.replicate (dim + 2) 0).length = dim + 2)
      obtain ⟨parts, ran, flat⟩ := ih all last
      rw [next] at ran flat
      refine ⟨(List.range' (chunk * chunkRows) (min chunkRows (n - chunk * chunkRows))).map
        (distance hamming sketches words qSketch) :: parts, ?_, ?_⟩
      rotate_left
      · rw [List.flatten_cons, flat, ← List.map_append, range'_chunk]
      · unfold scanChunks
        dsimp only
        rw [rows, ok_bind, ran, ok_bind, ← List.map_append, range'_chunk]
        rfl

theorem tally_zeros (bins : Nat) (distances : List Nat) :
    tally (List.replicate bins 0) distances = histogram bins distances := by
  refine List.ext_getElem? fun h => ?_
  unfold histogram
  rw [tally_getElem?, List.getElem?_map, List.getElem?_replicate]
  by_cases inside : h < bins
  · simp [inside]
  · simp [inside]

/-- Both paths have the distances of all rows and their counts. -/
theorem scan_eq (bounded : Bounded hamming sketches words qSketch dim n) (parallel : Option Split)
    (some : 0 < n) : (match parallel with
      | .some split => do
          let (hbuf, locals) ← scanChunks hamming sketches words qSketch dim n 0
            ((n + chunkRows - 1) / chunkRows)
          .ok (hbuf, reduce dim split locals)
      | none => scanRows hamming sketches words qSketch 0 n (List.replicate (dim + 2) 0) :
        Result (List Nat × List Nat)) =
      .ok ((List.range n).map fun row => distance hamming sketches words qSketch row % 2 ^ 16,
        histogram (dim + 2) ((List.range n).map (distance hamming sketches words qSketch))) := by
  cases parallel with
  | none =>
      dsimp only
      rw [scanRows_eq bounded (by omega) List.length_replicate, tally_zeros, List.range_eq_range']
  | some split =>
      have size : 0 < chunkRows := by decide
      have chunks := Nat.div_add_mod (n + chunkRows - 1) chunkRows
      have rest := Nat.mod_lt (n + chunkRows - 1) size
      rw [Nat.mul_comm] at chunks
      obtain ⟨parts, ran, flat⟩ := @scanChunks_eq _ _ _ _ _ _ bounded 0
        ((n + chunkRows - 1) / chunkRows) (by rw [Nat.zero_add]; omega)
        (by rw [Nat.zero_add]; omega)
      rw [Nat.zero_mul, Nat.sub_zero, ← List.range_eq_range'] at ran flat
      dsimp only
      rw [ran, ok_bind, reduce_eq, flat, tally_zeros]

/-- The id of a row, and its distance. -/
def hitOf (hamming : List UInt64 → List UInt64 → Nat) (sketches : List UInt64) (words : Nat)
    (rows : List (UInt32 × Nat)) (qSketch : List UInt64) (place : Nat) : VectorId × Nat :=
  (UInt64.ofNat ((rows.map Prod.fst).getD place 0).toNat,
    distance hamming sketches words qSketch place)

theorem scanCandidates_eq {rows : List (UInt32 × Nat)} {ck : Nat}
    (bounded : Bounded hamming sketches words qSketch dim rows.length) (narrow : dim < 2 ^ 16)
    (budget : ck < 2 ^ 32) (parallel : Option Split) :
    scanCandidates hamming sketches words rows qSketch ck dim parallel =
      .ok ((nearest ck ((List.range rows.length).map fun place =>
        (place, distance hamming sketches words qSketch place))).map
          (hitOf hamming sketches words rows qSketch)) := by
  let dist := distance hamming sketches words qSketch
  have slots : (List.range rows.length).map (fun row => dist row % 2 ^ 16) =
      (List.range rows.length).map dist := by
    refine List.map_congr_left fun row member => Nat.mod_eq_of_lt ?_
    exact (bounded.near row (List.mem_range.mp member)).trans_lt narrow
  have items : ((rows.zip ((List.range rows.length).map dist)).map fun item =>
      ((UInt64.ofNat item.1.1.toNat, item.2), item.2)) =
        ((List.range rows.length).map fun place => (place, dist place)).map fun item =>
          (hitOf hamming sketches words rows qSketch item.1, item.2) := by
    refine List.ext_getElem (by simp) fun place inside also => ?_
    have inside : place < rows.length := by simpa using inside
    simp [hitOf, inside, dist]
  have counted : ((List.range rows.length).map dist) =
      (((List.range rows.length).map fun place => (place, dist place)).map fun item =>
        (hitOf hamming sketches words rows qSketch item.1, item.2)).map Prod.snd := by
    rw [List.map_map, List.map_map]
    rfl
  have select : selectNearest (dim + 2) ck
      (((List.range rows.length).map fun place => (place, dist place)).map fun item =>
        (hitOf hamming sketches words rows qSketch item.1, item.2)) =
      nearest ck (((List.range rows.length).map fun place => (place, dist place)).map fun item =>
        (hitOf hamming sketches words rows qSketch item.1, item.2)) := by
    refine selectNearest_eq _ fun far member => ?_
    rw [← counted] at member
    obtain ⟨row, known, rfl⟩ := List.mem_map.mp member
    have near := bounded.near row (List.mem_range.mp known)
    change dist row ≤ dim at near
    omega
  rw [← nearest_map, ← select]
  unfold scanCandidates
  dsimp only
  split
  · rename_i none
    rw [none]
    rfl
  · rename_i some
    rw [scan_eq bounded parallel (Nat.pos_of_ne_zero some), ok_bind]
    dsimp only
    rw [slots, Nat.mod_eq_of_lt budget, items]
    unfold selectNearest
    rw [← counted]
    rfl

/-- Whatever counts the bits, and whether or not the rows are counted in chunks, the scan returns
the nearest rows: as many as asked for, none farther than a row that is left out, and at the same
distance the earlier ones. A file's dimensions have 16 bits, and the budget is no more than the
number of its vectors, whose ids have 32. -/
theorem scanCandidates_exact (hamming : List UInt64 → List UInt64 → Nat)
    (sketches qSketch : List UInt64) (words ck dim : Nat) (rows : List (UInt32 × Nat))
    (bounded : Bounded hamming sketches words qSketch dim rows.length) (narrow : dim < 2 ^ 16)
    (budget : ck < 2 ^ 32) :
    ∃ places : List Nat, places.Sublist (List.range rows.length) ∧
      places.length = min ck rows.length ∧
      (∀ kept ∈ places, ∀ other < rows.length, other ∉ places →
        distance hamming sketches words qSketch kept <
            distance hamming sketches words qSketch other ∨
          distance hamming sketches words qSketch kept =
            distance hamming sketches words qSketch other ∧ kept < other) ∧
      ∀ parallel, scanCandidates hamming sketches words rows qSketch ck dim parallel =
        .ok (places.map (hitOf hamming sketches words rows qSketch)) := by
  obtain ⟨places, kept, sublist, length, ahead⟩ :=
    nearest_places (distance hamming sketches words qSketch) rows.length ck
  refine ⟨places, sublist, length, ahead, fun parallel => ?_⟩
  rw [scanCandidates_eq bounded narrow budget parallel, kept]

/-- Three rows of one word; the first and the last are as far from the query. -/
theorem scanCandidates_three : ∃ places : List Nat, places.length = 2 ∧ ∀ parallel,
    scanCandidates hammingScalar [1, 0, 2] 1 [(7, 0), (8, 0), (9, 0)] [0] 2 64 parallel =
      .ok (places.map (hitOf hammingScalar [1, 0, 2] 1 [(7, 0), (8, 0), (9, 0)] [0])) := by
  obtain ⟨places, _, length, _, same⟩ := scanCandidates_exact hammingScalar [1, 0, 2] [0] 1 2 64
    [(7, 0), (8, 0), (9, 0)] ⟨by decide, by decide⟩ (by decide) (by decide)
  exact ⟨places, length, same⟩

end Valise.SketchScan
