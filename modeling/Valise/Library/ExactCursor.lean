import Valise.Library.Cursor

/-!
Decoders told by the bytes they accept: a decoder is exact when it returns a value just where bytes
that spell the value come next, and stops behind them.
-/

namespace Cursors

open ByteLists Commands Command Outcomes

variable {ε α β : Type}

/-- How a value is spelled may depend on where the cursor stands. -/
def Exact (decoder : Decoder ε α) (spells : Nat → α → Bytes → Prop) : Prop :=
  ∀ pos rest reserved value pos' rest',
    (∃ now, decoder ⟨pos, rest, reserved⟩ = (.ok value, ⟨pos', rest', now⟩)) ↔
      ∃ bytes, spells pos value bytes ∧ rest = bytes ++ rest' ∧ pos' = pos + bytes.length

/-- Where the cursor stands. -/
def position : Decoder ε Nat := do
  let cursor ← Command.get
  return cursor.pos

/-- The values one behind the other. -/
def SpellsMany (spells : Nat → α → Bytes → Prop) : Nat → List α → Bytes → Prop
  | _, [], bytes => bytes = []
  | pos, value :: values, bytes => ∃ front back, bytes = front ++ back ∧ spells pos value front ∧
      SpellsMany spells (pos + front.length) values back

variable {decoder first : Decoder ε α} {next : α → Decoder ε β}
  {spells other : Nat → α → Bytes → Prop} {later : α → Nat → β → Bytes → Prop}

theorem Exact.congr (exact : Exact decoder spells)
    (same : ∀ pos value bytes, spells pos value bytes ↔ other pos value bytes) :
    Exact decoder other := by
  intro pos rest reserved value pos' rest'
  rw [exact pos rest reserved value pos' rest']
  simp only [same]

/-- A decoder that moves nothing and may stop. -/
theorem exact_of_still (run : Cursor → Outcome ε α) (condition : Nat → α → Prop)
    (moves : ∀ cursor, ∃ now, decoder cursor = (run cursor, { cursor with reserved := now }))
    (returns : ∀ cursor value, run cursor = .ok value ↔ condition cursor.pos value) :
    Exact decoder fun pos value bytes => condition pos value ∧ bytes = [] := by
  intro pos rest reserved value pos' rest'
  obtain ⟨room, ran⟩ := moves ⟨pos, rest, reserved⟩
  have told := returns ⟨pos, rest, reserved⟩ value
  constructor
  · rintro ⟨now, done⟩
    rw [ran, Prod.mk.injEq, Cursor.mk.injEq] at done
    obtain ⟨found, rfl, rfl, -⟩ := done
    exact ⟨[], ⟨told.mp found, rfl⟩, rfl, rfl⟩
  · rintro ⟨bytes, ⟨holds, rfl⟩, rfl, rfl⟩
    exact ⟨room, by rw [ran, told.mpr holds]⟩

theorem exact_pure (value : α) :
    Exact (pure value : Decoder ε α) fun _ found bytes => found = value ∧ bytes = [] := by
  refine exact_of_still (fun _ => .ok value) (fun _ found => found = value) ?_ ?_
  · exact fun cursor => ⟨cursor.reserved, rfl⟩
  · intro _ found
    rw [Outcome.ok.injEq]
    exact eq_comm

theorem exact_lift (result : Outcome ε α) :
    Exact (lift result) fun _ value bytes => result = .ok value ∧ bytes = [] :=
  exact_of_still (fun _ => result) (fun _ value => result = .ok value)
    (fun cursor => ⟨cursor.reserved, rfl⟩) fun _ _ => Iff.rfl

theorem exact_reserve (count : Nat) :
    Exact (reserve count : Decoder ε Unit) fun _ _ bytes => True ∧ bytes = [] :=
  exact_of_still (fun _ => .ok ()) (fun _ _ => True)
    (fun cursor => ⟨max cursor.reserved count, rfl⟩) fun _ _ => ⟨fun _ => trivial, fun _ => rfl⟩

theorem exact_position :
    Exact (position : Decoder ε Nat) fun pos value bytes => pos = value ∧ bytes = [] := by
  refine exact_of_still (fun cursor => .ok cursor.pos) (fun pos value => pos = value) ?_ ?_
  · exact fun cursor => ⟨cursor.reserved, rfl⟩
  · intro cursor value
    rw [Outcome.ok.injEq]

theorem exact_takeBytes (short : Nat → ε) (count : Nat) :
    Exact (takeBytes short count) fun _ value bytes => value = bytes ∧ bytes.length = count := by
  intro pos rest reserved value pos' rest'
  constructor
  · rintro ⟨now, done⟩
    unfold takeBytes at done
    split at done
    · rename_i enough
      simp only [Prod.mk.injEq, Outcome.ok.injEq, Cursor.mk.injEq] at done
      obtain ⟨rfl, rfl, rfl, -⟩ := done
      have length : (rest.take count).length = count := List.length_take_of_le enough
      exact ⟨rest.take count, ⟨rfl, length⟩, (List.take_append_drop count rest).symm, by rw [length]⟩
    · simp only [Prod.mk.injEq, reduceCtorEq, false_and] at done
  · rintro ⟨bytes, ⟨rfl, rfl⟩, rfl, rfl⟩
    obtain ⟨now, done⟩ := reads_takeBytes short value pos rest' reserved
    exact ⟨now, done⟩

theorem Exact.bind (exact : Exact first spells) (rest : ∀ value, Exact (next value) (later value)) :
    Exact (first >>= next) fun pos result bytes => ∃ value front back, bytes = front ++ back ∧
      spells pos value front ∧ later value (pos + front.length) result back := by
  intro pos left reserved result pos' left'
  constructor
  · rintro ⟨now, done⟩
    obtain ⟨value, ⟨middle, between, room⟩, firstDone, nextDone⟩ := Command.bind_eq_ok.mp done
    obtain ⟨front, spelled, rfl, rfl⟩ := (exact _ _ _ _ _ _).mp ⟨room, firstDone⟩
    obtain ⟨back, spelledLater, rfl, rfl⟩ := (rest value _ _ _ _ _ _).mp ⟨now, nextDone⟩
    refine ⟨front ++ back, ⟨value, front, back, rfl, spelled, spelledLater⟩, ?_, ?_⟩
    · rw [List.append_assoc]
    · rw [List.length_append, Nat.add_assoc]
  · rintro ⟨bytes, ⟨value, front, back, rfl, spelled, spelledLater⟩, rfl, rfl⟩
    obtain ⟨room, firstDone⟩ := (exact pos (front ++ back ++ left') reserved value
      (pos + front.length) (back ++ left')).mpr ⟨front, spelled, List.append_assoc .., rfl⟩
    obtain ⟨now, nextDone⟩ := (rest value (pos + front.length) (back ++ left') room result
      (pos + (front ++ back).length) left').mpr ⟨back, spelledLater, rfl, by
        rw [List.length_append, Nat.add_assoc]⟩
    exact ⟨now, by rw [bind_of_ok firstDone, nextDone]⟩

/-- A check before a decoder. -/
theorem Exact.ensure {condition : Prop} [Decidable condition] {error : ε} {last : Decoder ε β}
    {result : Nat → β → Bytes → Prop} (exact : Exact last result) :
    Exact (do lift (Outcome.ensure condition error); last) fun pos value bytes =>
      condition ∧ result pos value bytes := by
  refine ((exact_lift _).bind fun _ => exact).congr ?_
  intro pos value bytes
  constructor
  · rintro ⟨_, front, back, rfl, ⟨holds, rfl⟩, spelled⟩
    exact ⟨Outcome.ensure_eq_ok.mp holds, spelled⟩
  · rintro ⟨holds, spelled⟩
    exact ⟨(), [], bytes, rfl, ⟨Outcome.ensure_eq_ok.mpr holds, rfl⟩, spelled⟩

/-- The result of a decoder is changed. -/
theorem Exact.map (exact : Exact decoder spells) (change : α → β) :
    Exact (do let value ← decoder; return change value) fun pos result bytes =>
      ∃ value, spells pos value bytes ∧ result = change value := by
  refine (exact.bind fun value => exact_pure (change value)).congr ?_
  intro pos result bytes
  constructor
  · rintro ⟨value, front, back, rfl, spelled, rfl, rfl⟩
    exact ⟨value, by rwa [List.append_nil], rfl⟩
  · rintro ⟨value, spelled, rfl⟩
    exact ⟨value, bytes, [], (List.append_nil bytes).symm, spelled, rfl, rfl⟩

theorem exact_takeNumber (short : Nat → ε) (width : Nat) :
    Exact (takeNumber short width) fun _ value bytes =>
      value < 256 ^ width ∧ bytes = putLittleEndian width value := by
  refine ((exact_takeBytes short width).map getLittleEndian).congr ?_
  intro _ value bytes
  constructor
  · rintro ⟨_, ⟨rfl, rfl⟩, rfl⟩
    exact ⟨getLittleEndian_lt _, (putLittleEndian_get _).symm⟩
  · rintro ⟨fits, rfl⟩
    exact ⟨_, ⟨rfl, putLittleEndian_length _ _⟩, (getLittleEndian_put width value fits).symm⟩

theorem exact_takeMany {item : Decoder ε α} (exact : Exact item spells) (count : Nat) :
    Exact (takeMany item count) fun pos values bytes =>
      values.length = count ∧ SpellsMany spells pos values bytes := by
  induction count with
  | zero =>
      refine (exact_pure []).congr fun pos values bytes => ?_
      rw [List.length_eq_zero_iff]
      constructor
      · rintro ⟨rfl, rfl⟩
        exact ⟨rfl, rfl⟩
      · rintro ⟨rfl, spelled⟩
        exact ⟨rfl, spelled⟩
  | succ count ih =>
      refine (exact.bind fun value => ih.map (value :: ·)).congr fun pos values bytes => ?_
      constructor
      · rintro ⟨value, front, back, rfl, spelled, values, ⟨rfl, many⟩, rfl⟩
        exact ⟨rfl, front, back, rfl, spelled, many⟩
      · rintro ⟨counted, many⟩
        cases values with
        | nil => exact absurd counted (Nat.succ_ne_zero count).symm
        | cons value values =>
            obtain ⟨front, back, rfl, spelled, rest⟩ := many
            exact ⟨value, front, back, rfl, spelled, values, ⟨Nat.succ.inj counted, rest⟩, rfl⟩

/-- A whole byte string is decoded just where it spells the value. -/
theorem Exact.decodeAll_eq_ok (exact : Exact decoder spells) {trailing : Nat → ε} {bytes : Bytes}
    {value : α} : decodeAll (do let value ← decoder; atEnd trailing; return value) bytes =
      .ok value ↔ spells 0 value bytes := by
  constructor
  · intro done
    have ran : (do let value ← decoder; atEnd trailing; return value : Decoder ε α) (start bytes) =
        (.ok value, (do let value ← decoder; atEnd trailing; return value : Decoder ε α)
          (start bytes) |>.2) := Prod.ext done rfl
    obtain ⟨found, ⟨pos, rest, room⟩, decoded, ended⟩ := Command.bind_eq_ok.mp ran
    obtain ⟨_, middle, atEnd, same⟩ := Command.bind_eq_ok.mp ended
    obtain ⟨cursor, kept, got, checked⟩ := Command.bind_eq_ok.mp atEnd
    obtain ⟨rfl, rfl⟩ := get_eq_ok.mp got
    obtain ⟨nothing, -⟩ := lift_eq_ok.mp checked
    have none : rest = [] := Outcome.ensure_eq_ok.mp nothing
    subst none
    obtain ⟨front, spelled, whole, -⟩ := (exact _ _ _ _ _ _).mp ⟨room, decoded⟩
    rw [List.append_nil] at whole
    have returned : found = value := by
      rw [pure_apply, Prod.mk.injEq, Outcome.ok.injEq] at same
      exact same.1
    rw [whole, ← returned]
    exact spelled
  · intro spelled
    obtain ⟨now, decoded⟩ := (exact 0 bytes 0 value bytes.length []).mpr
      ⟨bytes, spelled, (List.append_nil bytes).symm, (Nat.zero_add _).symm⟩
    have finished : Finishes (atEnd trailing >>= fun _ => (pure value : Decoder ε α)) [] value :=
      finishes_atEnd (finishes_pure value)
    rw [decodeAll, start, bind_of_ok decoded]
    exact finished bytes.length now

end Cursors
