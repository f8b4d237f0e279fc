import Valise.SegmentCursor

/-!
The columns that several segments have in common: ascending ids as gaps, runs of equal values, dates
as changes of their steps, and dates as distances from other dates.
-/

namespace Valise

open ByteLists Columns Commands Command Cursors Outcomes Wire

namespace SegmentCodec

/-! ### Ascending ids -/

def writeIds (notMonotone : String) : List Nat → Result Bytes
  | [] => return []
  | first :: later => do
      let deltas ← gaps (Error.format notMonotone) first later
      return putLittleEndian 8 first ++ deltas.flatMap writeUvarint

def readLaterIds (segment overflow : String) : Nat → Nat → Reader (List Nat)
  | 0, _ => return []
  | count + 1, prev => do
      let delta ← readUvarint segment
      lift (Outcome.ensure (prev + delta < 2 ^ 64) (.format overflow))
      let later ← readLaterIds segment overflow count (prev + delta)
      return (prev + delta) :: later

/-- The first id is read even where no rows are expected. -/
def readIds (segment overflow : String) (count : Nat) : Reader (List Nat) := do
  let first ← readU64 segment
  let later ← readLaterIds segment overflow (count - 1) first.toNat
  return first.toNat :: later

theorem reads_laterIds (segment overflow : String) {error : Error} {prev : Nat}
    {ids deltas : List Nat} (fit : ∀ id ∈ ids, id < 2 ^ 64)
    (encoded : gaps error prev ids = .ok deltas) :
    Reads (readLaterIds segment overflow ids.length prev) (deltas.flatMap writeUvarint) ids := by
  induction ids generalizing prev deltas with
  | nil =>
      obtain rfl := Outcome.ok.inj encoded
      exact reads_pure []
  | cons id ids ih =>
      simp only [gaps, Outcome.bind_eq_ok, Outcome.ensure_eq_ok, Outcome.pure_eq,
        Outcome.ok.injEq] at encoded
      obtain ⟨_, after, rest, restEncoded, rfl⟩ := encoded
      have bound : id < 2 ^ 64 := fit id List.mem_cons_self
      have here : prev + (id - prev) = id := by omega
      have later := ih (fun other member => fit other (List.mem_cons_of_mem _ member)) restEncoded
      rw [List.flatMap_cons, List.length_cons, readLaterIds]
      refine (reads_uvarint segment (by omega)).bind ?_
      rw [here]
      exact Reads.ensure bound (later.map (id :: ·))

theorem reads_ids (segment overflow : String) {notMonotone : String} {ids : List Nat}
    {written : Bytes} (nonempty : ids ≠ []) (fit : ∀ id ∈ ids, id < 2 ^ 64)
    (encoded : writeIds notMonotone ids = .ok written) :
    Reads (readIds segment overflow ids.length) written ids := by
  cases ids with
  | nil => contradiction
  | cons first later =>
      simp only [writeIds, Outcome.bind_eq_ok, Outcome.pure_eq, Outcome.ok.injEq] at encoded
      obtain ⟨deltas, deltasEncoded, rfl⟩ := encoded
      have bound : first < 2 ^ 64 := fit first List.mem_cons_self
      have same : (UInt64.ofNat first).toNat = first := by
        simpa using bound
      have raw := reads_u64 segment (UInt64.ofNat first)
      rw [writeU64, same] at raw
      refine raw.bind ?_
      rw [same, List.length_cons, Nat.add_sub_cancel]
      have rest := reads_laterIds segment overflow
        (fun other member => fit other (List.mem_cons_of_mem _ member)) deltasEncoded
      exact rest.map (first :: ·)

/-! ### Runs of equal values -/

section Runs

variable {α : Type} (put : α → Bytes) (value : Reader α)

/-- Neither the number of runs nor the length of one can pass the count of the rows. -/
def writeRuns [DecidableEq α] (tooLong tooMany : String) (values : List α) : Result Bytes := do
  Outcome.ensure ((runs values).all fun run => run.2 < 2 ^ 32) (.format tooLong)
  Outcome.ensure ((runs values).length < 2 ^ 32) (.format tooMany)
  return putLittleEndian 4 (runs values).length ++
    (runs values).flatMap fun run => put run.1 ++ writeUvarint run.2

/-- The values and the total of the run lengths. -/
def readRunsFrom (segment overflow : String) : Nat → Nat → Reader (Nat × List α)
  | 0, total => return (total, [])
  | count + 1, total => do
      let found ← value
      let length ← readUvarint segment
      lift (Outcome.ensure (total + length < 2 ^ 64) (.format overflow))
      let rest ← readRunsFrom segment overflow count (total + length)
      return (rest.1, List.replicate length found ++ rest.2)

/-- A run column covers every row and nothing else. -/
def readRuns (segment overflow : String) (covers trailing : Nat → String) (expected : Nat) :
    Reader (List α) := do
  let count ← readU32 segment
  let rest ← readRunsFrom value segment overflow count.toNat 0
  lift (Outcome.ensure (rest.1 = expected) (.format (covers rest.1)))
  atEnd fun left => .format (trailing left)
  return rest.2

variable {put value}

theorem expand_cons (run : α × Nat) (rest : List (α × Nat)) :
    expand (run :: rest) = List.replicate run.2 run.1 ++ expand rest := rfl

theorem reads_runsFrom (segment overflow : String) (each : ∀ item, Reads value (put item) item)
    {packed : List (α × Nat)} {total : Nat} (fits : total + (expand packed).length < 2 ^ 64) :
    Reads (readRunsFrom value segment overflow packed.length total)
      (packed.flatMap fun run => put run.1 ++ writeUvarint run.2)
      (total + (expand packed).length, expand packed) := by
  induction packed generalizing total with
  | nil => exact reads_pure (total, [])
  | cons run rest ih =>
      rw [expand_cons, List.length_append, List.length_replicate] at fits ⊢
      have later := @ih (total + run.2) (by omega)
      rw [List.flatMap_cons, List.length_cons, readRunsFrom, List.append_assoc]
      refine (each run.1).bind ((reads_uvarint segment (by omega)).bind (Reads.ensure (by omega) ?_))
      have mapped := later.map fun found : Nat × List α =>
        (found.1, List.replicate run.2 run.1 ++ found.2)
      rwa [← Nat.add_assoc]

theorem finishes_runs [DecidableEq α] (segment overflow : String) (covers trailing : Nat → String)
    (each : ∀ item, Reads value (put item) item) {tooLong tooMany : String} {values : List α}
    {written : Bytes} (short : values.length < 2 ^ 64)
    (encoded : writeRuns put tooLong tooMany values = .ok written) :
    Finishes (readRuns value segment overflow covers trailing values.length) written values := by
  simp only [writeRuns, Outcome.bind_eq_ok, Outcome.ensure_eq_ok, Outcome.pure_eq,
    Outcome.ok.injEq] at encoded
  obtain ⟨_, _, _, few, rfl⟩ := encoded
  obtain ⟨count, number⟩ := reads_count segment few
  have found := @reads_runsFrom α put value segment overflow each (runs values) 0
    (by simpa using short)
  rw [expand_runs, Nat.zero_add] at found
  refine Finishes.bind number ?_
  rw [count, ← List.append_nil (List.flatMap _ _)]
  exact Finishes.bind found (Finishes.ensure (Eq.refl _) (finishes_atEnd (finishes_pure values)))

end Runs

/-! ### Dates -/

def writeDates (stepOverflow changeOverflow : String) : List Int64 → Result Bytes
  | [] => return []
  | first :: later => do
      let packed ← secondDifferences (Error.format stepOverflow) (Error.format changeOverflow)
        first.toInt 0 (later.map Int64.toInt)
      return writeI64 first ++ packed.flatMap writeIvarint

def readLaterDates (segment stepOverflow valueOverflow : String) :
    Nat → Int → Int → Reader (List Int64)
  | 0, _, _ => return []
  | count + 1, prev, prevStep => do
      let change ← readIvarint segment
      let step ← lift (checked (prevStep + change) (Error.format stepOverflow))
      let date ← lift (checked (prev + step) (Error.format valueOverflow))
      let later ← readLaterDates segment stepOverflow valueOverflow count date step
      return Int64.ofInt date :: later

def readDates (segment stepOverflow valueOverflow : String) (count : Nat) : Reader (List Int64) := do
  let first ← readI64 segment
  let later ← readLaterDates segment stepOverflow valueOverflow (count - 1) first.toInt 0
  return first :: later

theorem reads_laterDates (segment stepOverflow valueOverflow : String) {stepError changeError : Error}
    {prev prevStep : Int} {dates : List Int64} {packed : List Int}
    (encoded : secondDifferences stepError changeError prev prevStep (dates.map Int64.toInt) =
      .ok packed) :
    Reads (readLaterDates segment stepOverflow valueOverflow dates.length prev prevStep)
      (packed.flatMap writeIvarint) dates := by
  induction dates generalizing prev prevStep packed with
  | nil =>
      obtain rfl := Outcome.ok.inj encoded
      exact reads_pure []
  | cons date dates ih =>
      simp only [List.map_cons, secondDifferences, Outcome.bind_eq_ok, checked_eq_ok,
        Outcome.pure_eq, Outcome.ok.injEq] at encoded
      obtain ⟨step, ⟨stepFits, rfl⟩, change, ⟨changeFits, rfl⟩, rest, restEncoded, rfl⟩ := encoded
      have back : prevStep + (date.toInt - prev - prevStep) = date.toInt - prev := by omega
      have next : prev + (date.toInt - prev) = date.toInt := by omega
      rw [List.flatMap_cons, List.length_cons, readLaterDates]
      refine (reads_ivarint segment changeFits).bind ?_
      rw [back]
      refine Reads.lift (checked_true _ stepFits) ?_
      rw [next]
      refine Reads.lift (checked_true _ (Int64.inWord date)) ?_
      have later := (ih restEncoded).map (Int64.ofInt date.toInt :: ·)
      rwa [Int64.ofInt_toInt] at later ⊢

theorem reads_dates (segment stepOverflow valueOverflow : String)
    {writeStepOverflow changeOverflow : String} {dates : List Int64} {written : Bytes}
    (nonempty : dates ≠ [])
    (encoded : writeDates writeStepOverflow changeOverflow dates = .ok written) :
    Reads (readDates segment stepOverflow valueOverflow dates.length) written dates := by
  cases dates with
  | nil => contradiction
  | cons first later =>
      simp only [writeDates, Outcome.bind_eq_ok, Outcome.pure_eq, Outcome.ok.injEq] at encoded
      obtain ⟨packed, packedEncoded, rfl⟩ := encoded
      refine (reads_i64 segment first).bind ?_
      rw [List.length_cons, Nat.add_sub_cancel]
      exact (reads_laterDates segment stepOverflow valueOverflow packedEncoded).map (first :: ·)

def writeOffsets (overflow : String) (rows : List (Int64 × Int64)) : Result Bytes := do
  let offsets ← updatedOffsets overflow rows
  return offsets.flatMap writeIvarint

def readOffsets (segment overflow : String) : List Int64 → Reader (List Int64)
  | [] => return []
  | created :: rows => do
      let offset ← readIvarint segment
      let updated ← lift (checked (created.toInt + offset) (Error.format overflow))
      let later ← readOffsets segment overflow rows
      return Int64.ofInt updated :: later

theorem reads_offsets (segment overflow : String) {writeOverflow : String}
    {rows : List (Int64 × Int64)} {written : Bytes}
    (encoded : writeOffsets writeOverflow rows = .ok written) :
    Reads (readOffsets segment overflow (rows.map Prod.fst)) written (rows.map Prod.snd) := by
  simp only [writeOffsets, Outcome.bind_eq_ok, Outcome.pure_eq, Outcome.ok.injEq] at encoded
  obtain ⟨offsets, offsetsEncoded, rfl⟩ := encoded
  induction rows generalizing offsets with
  | nil =>
      obtain rfl := Outcome.ok.inj offsetsEncoded
      exact reads_pure []
  | cons row rows ih =>
      obtain ⟨created, updated⟩ := row
      simp only [updatedOffsets, Outcome.bind_eq_ok, checked_eq_ok, Outcome.pure_eq,
        Outcome.ok.injEq] at offsetsEncoded
      obtain ⟨offset, ⟨fits, rfl⟩, rest, restEncoded, rfl⟩ := offsetsEncoded
      have back : created.toInt + (updated.toInt - created.toInt) = updated.toInt := by omega
      rw [List.flatMap_cons, List.map_cons, List.map_cons, readOffsets]
      refine (reads_ivarint segment fits).bind ?_
      rw [back]
      refine Reads.lift (checked_true _ (Int64.inWord updated)) ?_
      have later := (ih rest restEncoded).map (Int64.ofInt updated.toInt :: ·)
      rwa [Int64.ofInt_toInt] at later ⊢

/-! ### Numbers of 32 bits as varints -/

def readU32Varint (segment tooLarge : String) : Reader UInt32 := do
  let value ← readUvarint segment
  lift (Outcome.ensure (value < 2 ^ 32) (.format tooLarge))
  return UInt32.ofNat value

theorem reads_u32Varint (segment tooLarge : String) (value : UInt32) :
    Reads (readU32Varint segment tooLarge) (writeUvarint value.toNat) value := by
  have bound := value.toNat_lt
  rw [← List.append_nil (writeUvarint value.toNat)]
  refine (reads_uvarint segment (by omega)).bind (Reads.ensure (by omega) ?_)
  rw [UInt32.ofNat_toNat]
  exact reads_pure value

theorem finishes_u32Varints (segment tooLarge : String) (trailing : Nat → String)
    (values : List UInt32) :
    Finishes (do
        let found ← takeMany (readU32Varint segment tooLarge) values.length
        atEnd fun left => Error.format (trailing left)
        return found) (values.flatMap fun value => writeUvarint value.toNat) values :=
  (reads_takeMany fun value _ => reads_u32Varint segment tooLarge value).toEnd

end SegmentCodec

end Valise
