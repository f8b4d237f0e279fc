import Valise.Library.Cursor

/-!
When a decoder neither aborts nor makes more room than a limit, one step at a time.
-/

namespace Cursors

open Commands Command Outcomes

variable {ε α β : Type}

/-- What holds wherever the decoder gets to the end. -/
def Upon (decoder : Decoder ε α) (cursor : Cursor) (next : α → Cursor → Prop) : Prop :=
  ∀ value after, decoder cursor = (.ok value, after) → next value after

/-- No abort, and no room for more items than the limit. -/
def Fits (limit : Nat) (decoder : Decoder ε α) (cursor : Cursor) : Prop :=
  (decoder cursor).1 ≠ .panic ∧ (decoder cursor).2.reserved ≤ limit

def Grows (decoder : Decoder ε α) : Prop :=
  ∀ cursor, cursor.reserved ≤ (decoder cursor).2.reserved

/-- Such a decoder never aborts, and neither makes room nor looks at the room that was made. -/
def Plain (decoder : Decoder ε α) : Prop :=
  ∀ cursor, (decoder cursor).1 ≠ .panic ∧ ∀ room, decoder { cursor with reserved := room } =
    ((decoder cursor).1, { (decoder cursor).2 with reserved := room })

/-- What can be read of so many items. -/
def readable (item : Decoder ε α) : Nat → Cursor → List α
  | 0, _ => []
  | count + 1, cursor =>
      match item cursor with
      | (.ok value, after) => value :: readable item count after
      | _ => []

theorem ok_ne_panic (value : α) : (.ok value : Outcome ε α) ≠ .panic := nofun

theorem err_ne_panic (error : ε) : (.err error : Outcome ε α) ≠ .panic := nofun

variable {limit : Nat} {decoder first : Decoder ε α} {next : α → Decoder ε β} {cursor : Cursor}

theorem upon_of_ok {property : α → Cursor → Prop} {value : α} {after : Cursor}
    (done : decoder cursor = (.ok value, after)) :
    Upon decoder cursor property ↔ property value after := by
  constructor
  · intro holds
    exact holds value after done
  · intro holds other final same
    rw [done, Prod.mk.injEq, Outcome.ok.injEq] at same
    obtain ⟨rfl, rfl⟩ := same
    exact holds

theorem upon_of_stopped {property : α → Cursor → Prop} {result : Outcome ε α} {after : Cursor}
    (done : decoder cursor = (result, after)) (stopped : ∀ value, result ≠ .ok value) :
    Upon decoder cursor property := by
  intro value final same
  rw [done, Prod.mk.injEq] at same
  exact absurd same.1 (stopped value)

theorem Upon.mono {property other : α → Cursor → Prop} (holds : Upon decoder cursor property)
    (weaker : ∀ value after, property value after → other value after) :
    Upon decoder cursor other :=
  fun value after done => weaker value after (holds value after done)

theorem upon_congr {property other : α → Cursor → Prop}
    (same : ∀ value after, decoder cursor = (.ok value, after) →
      (property value after ↔ other value after)) :
    Upon decoder cursor property ↔ Upon decoder cursor other := by
  constructor
  · intro holds value after done
    exact (same value after done).mp (holds value after done)
  · intro holds value after done
    exact (same value after done).mpr (holds value after done)

/-! ### What never aborts -/

theorem Plain.reserved_eq (plain : Plain decoder) (cursor : Cursor) :
    (decoder cursor).2.reserved = cursor.reserved :=
  congrArg (fun ran => ran.2.reserved) ((plain cursor).2 cursor.reserved)

theorem Plain.grows (plain : Plain decoder) : Grows decoder :=
  fun cursor => Nat.le_of_eq (plain.reserved_eq cursor).symm

theorem Plain.fits (plain : Plain decoder) : Fits limit decoder cursor ↔ cursor.reserved ≤ limit := by
  rw [Fits, plain.reserved_eq]
  exact and_iff_right (plain cursor).1

theorem Plain.readable_room (plain : Plain decoder) (count room : Nat) (cursor : Cursor) :
    readable decoder count { cursor with reserved := room } = readable decoder count cursor := by
  induction count generalizing cursor with
  | zero => rfl
  | succ count ih =>
      have moved := (plain cursor).2 room
      cases ran : decoder cursor with
      | mk result after =>
          rw [ran] at moved
          cases result with
          | ok value => simp only [readable, ran, moved, ih]
          | err error => simp only [readable, ran, moved]
          | panic => simp only [readable, ran, moved]

theorem plain_pure (value : α) : Plain (pure value : Decoder ε α) :=
  fun _ => ⟨ok_ne_panic _, fun _ => rfl⟩

theorem plain_lift {result : Outcome ε α} (runs : result ≠ .panic) :
    Plain (lift result : Decoder ε α) := fun _ => ⟨runs, fun _ => rfl⟩

/-- Of the cursor only what is left is looked at. -/
theorem plain_rest {next : ByteLists.Bytes → Decoder ε β} (plain : ∀ rest, Plain (next rest)) :
    Plain (Command.get >>= fun cursor => next cursor.rest) := by
  intro cursor
  exact plain cursor.rest cursor

theorem plain_takeBytes (short : Nat → ε) (count : Nat) : Plain (takeBytes short count) := by
  intro cursor
  unfold takeBytes
  by_cases enough : count ≤ cursor.rest.length
  · simp only [if_pos enough]
    exact ⟨ok_ne_panic _, fun _ => trivial⟩
  · simp only [if_neg enough]
    exact ⟨err_ne_panic _, fun _ => trivial⟩

theorem Plain.bind (plain : Plain first) (later : ∀ value, Plain (next value)) :
    Plain (first >>= next) := by
  intro cursor
  have here := plain cursor
  cases ran : first cursor with
  | mk result after =>
      rw [ran] at here
      cases result with
      | ok value =>
          rw [bind_of_ok ran]
          refine ⟨(later value after).1, fun room => ?_⟩
          rw [bind_of_ok (here.2 room)]
          exact (later value after).2 room
      | err error =>
          rw [bind_of_err ran]
          refine ⟨err_ne_panic error, fun room => ?_⟩
          rw [bind_of_err (here.2 room)]
      | panic => exact absurd rfl here.1

theorem plain_atEnd (trailing : Nat → ε) : Plain (atEnd trailing) :=
  plain_rest fun rest =>
    plain_lift (@Outcome.ensure_ne_panic _ (rest = []) _ (trailing rest.length))

theorem plain_takeNumber (short : Nat → ε) (width : Nat) : Plain (takeNumber short width) :=
  (plain_takeBytes short width).bind fun _ => plain_pure _

theorem plain_takeByte (short : Nat → ε) : Plain (takeByte short) :=
  (plain_takeNumber short 1).bind fun _ => plain_pure _

theorem plain_takeBase128 (short : Nat → ε) (long : ε) (digits shift value : Nat) :
    Plain (takeBase128 short long digits shift value) := by
  induction digits generalizing shift value with
  | zero => exact plain_lift (err_ne_panic long)
  | succ digits ih =>
      refine (plain_takeByte short).bind fun byte => ?_
      by_cases last : byte.toNat < 128
      · rw [if_pos last]
        exact plain_pure _
      · rw [if_neg last]
        exact ih _ _

theorem Plain.within {piece : ByteLists.Bytes} (plain : Plain decoder) :
    Plain (Cursors.within piece decoder) := by
  intro cursor
  have inner := plain ⟨0, piece, cursor.reserved⟩
  refine ⟨inner.1, fun room => ?_⟩
  have moved := inner.2 room
  simp only [Cursors.within] at moved ⊢
  rw [moved]

theorem plain_foldEach {items : List α} {value : β} {body : β → α → Decoder ε β}
    (plain : ∀ value item, Plain (body value item)) :
    Plain (Command.foldEach items value body) := by
  induction items generalizing value with
  | nil => exact plain_pure value
  | cons item items ih => exact (plain value item).bind fun _ => ih

/-! ### Room -/

theorem grows_reserve (count : Nat) : Grows (reserve count : Decoder ε Unit) :=
  fun cursor => Nat.le_max_left cursor.reserved count

theorem Grows.bind (grows : Grows first) (later : ∀ value, Grows (next value)) :
    Grows (first >>= next) := by
  intro cursor
  have here := grows cursor
  cases ran : first cursor with
  | mk result after =>
      rw [ran] at here
      cases result with
      | ok value =>
          rw [bind_of_ok ran]
          exact Nat.le_trans here (later value after)
      | err error =>
          rw [bind_of_err ran]
          exact here
      | panic =>
          rw [bind_of_failed ran nofun]
          exact here

theorem grows_lift (result : Outcome ε α) : Grows (lift result : Decoder ε α) :=
  fun cursor => Nat.le_refl cursor.reserved

theorem Grows.within {piece : ByteLists.Bytes} (grows : Grows decoder) :
    Grows (Cursors.within piece decoder) := by
  intro cursor
  exact grows ⟨0, piece, cursor.reserved⟩

theorem grows_foldEach {items : List α} {value : β} {body : β → α → Decoder ε β}
    (grows : ∀ value item, Grows (body value item)) :
    Grows (Command.foldEach items value body) := by
  induction items generalizing value with
  | nil => exact (plain_pure value).grows
  | cons item items ih => exact (grows value item).bind fun _ => ih

theorem fits_bind (later : ∀ value, Grows (next value)) :
    Fits limit (first >>= next) cursor ↔
      Fits limit first cursor ∧ Upon first cursor fun value after => Fits limit (next value) after := by
  cases ran : first cursor with
  | mk result after =>
      cases result with
      | ok value =>
          rw [upon_of_ok ran, Fits, bind_of_ok ran]
          constructor
          · intro fits
            refine ⟨?_, fits⟩
            rw [Fits, ran]
            exact ⟨ok_ne_panic value, Nat.le_trans (later value after) fits.2⟩
          · intro fits
            exact fits.2
      | err error =>
          rw [Fits, bind_of_err ran, Fits, ran]
          constructor
          · intro fits
            exact ⟨⟨err_ne_panic error, fits.2⟩, upon_of_stopped ran nofun⟩
          · rintro ⟨fits, -⟩
            exact ⟨err_ne_panic error, fits.2⟩
      | panic =>
          have aborts : ((first >>= next) cursor).1 = .panic := by
            change (Command.bind first next cursor).1 = .panic
            unfold Command.bind
            rw [ran]
          rw [Fits, aborts, Fits, ran]
          simp

theorem fits_pure (value : α) : Fits limit (pure value : Decoder ε α) cursor ↔
    cursor.reserved ≤ limit := (plain_pure value).fits

theorem fits_reserve (count : Nat) : Fits limit (reserve count : Decoder ε Unit) cursor ↔
    cursor.reserved ≤ limit ∧ count ≤ limit := by
  rw [← Nat.max_le]
  exact and_iff_right (ok_ne_panic ())

/-- A step that neither aborts nor makes room leaves the rest to fit. -/
theorem Plain.fits_bind (plain : Plain first) (later : ∀ value, Grows (next value)) :
    Fits limit (first >>= next) cursor ↔ cursor.reserved ≤ limit ∧
      Upon first cursor fun value after => Fits limit (next value) after := by
  rw [Cursors.fits_bind later, plain.fits]

theorem fits_reserve_bind {count : Nat} {later : Unit → Decoder ε β} (grows : Grows (later ())) :
    Fits limit (reserve count >>= later) cursor ↔ (cursor.reserved ≤ limit ∧ count ≤ limit) ∧
      Fits limit (later ()) { cursor with reserved := max cursor.reserved count } := by
  rw [Cursors.fits_bind fun _ => grows, fits_reserve]
  exact and_congr_right fun _ => upon_of_ok (Eq.refl _)

theorem fits_then_plain (later : ∀ value, Plain (next value)) :
    Fits limit (first >>= next) cursor ↔ Fits limit first cursor := by
  rw [Cursors.fits_bind fun value => (later value).grows]
  refine and_iff_left_of_imp fun fits value after done => ?_
  have room := fits.2
  rw [done] at room
  exact (later value).fits.mpr room

/-! ### Conditions for fitting -/

/-- From cursors within the limit, the decoder stays within it where the condition holds. -/
structure Within (limit : Nat) (decoder : Decoder ε α) (condition : Cursor → Prop) : Prop where
  grows : Grows decoder
  fits_iff : ∀ cursor, cursor.reserved ≤ limit → (Fits limit decoder cursor ↔ condition cursor)

theorem Plain.within_true (plain : Plain decoder) : Within limit decoder fun _ => True where
  grows := plain.grows
  fits_iff _ room := ⟨fun _ => trivial, fun _ => plain.fits.mpr room⟩

theorem Within.bind {condition : Cursor → Prop} {later : α → Cursor → Prop}
    (here : Within limit first condition) (after : ∀ value, Within limit (next value) (later value)) :
    Within limit (first >>= next) fun cursor => condition cursor ∧ Upon first cursor later where
  grows := here.grows.bind fun value => (after value).grows
  fits_iff cursor room := by
    rw [Cursors.fits_bind fun value => (after value).grows, here.fits_iff cursor room]
    refine and_congr_right fun holds => upon_congr fun value final done => ?_
    have fits := ((here.fits_iff cursor room).mpr holds).2
    rw [done] at fits
    exact (after value).fits_iff final fits

theorem Plain.within_bind {later : α → Cursor → Prop} (plain : Plain first)
    (after : ∀ value, Within limit (next value) (later value)) :
    Within limit (first >>= next) fun cursor => Upon first cursor later where
  grows := plain.grows.bind fun value => (after value).grows
  fits_iff cursor room := by
    rw [(plain.within_true.bind after).fits_iff cursor room]
    exact ⟨fun holds => holds.2, fun holds => ⟨trivial, holds⟩⟩

theorem Within.then_plain {condition : Cursor → Prop} (here : Within limit first condition)
    (later : ∀ value, Plain (next value)) : Within limit (first >>= next) condition where
  grows := here.grows.bind fun value => (later value).grows
  fits_iff cursor room := (fits_then_plain later).trans (here.fits_iff cursor room)

theorem Within.congr {condition other : Cursor → Prop} (here : Within limit decoder condition)
    (same : ∀ cursor, condition cursor ↔ other cursor) : Within limit decoder other where
  grows := here.grows
  fits_iff cursor room := (here.fits_iff cursor room).trans (same cursor)

/-- Room for as many items as fit is all right. -/
theorem within_reserve_bind {count : Nat} {later : Unit → Decoder ε β} {condition : Cursor → Prop}
    (room : count ≤ limit) (after : Within limit (later ()) condition) :
    Within limit (reserve count >>= later) fun cursor =>
      condition { cursor with reserved := max cursor.reserved count } where
  grows := (grows_reserve count).bind fun _ => after.grows
  fits_iff cursor bound := by
    rw [fits_reserve_bind after.grows, and_iff_right ⟨bound, room⟩]
    exact after.fits_iff _ (Nat.max_le.mpr ⟨bound, room⟩)

theorem within_reserve_plain {count : Nat} {later : Unit → Decoder ε β} (room : count ≤ limit)
    (plain : Plain (later ())) : Within limit (reserve count >>= later) fun _ => True :=
  @within_reserve_bind ε β limit count later (fun _ => True) room plain.within_true

/-! ### What is decoded -/

def Yields (property : α → Prop) (decoder : Decoder ε α) : Prop :=
  ∀ cursor value after, decoder cursor = (.ok value, after) → property value

theorem yields_any : Yields (fun _ => True) decoder := fun _ _ _ _ => trivial

theorem Yields.bind {property : α → Prop} {other : β → Prop} (here : Yields property first)
    (later : ∀ value, property value → Yields other (next value)) : Yields other (first >>= next) := by
  intro cursor value after done
  obtain ⟨middle, state, firstDone, nextDone⟩ := bind_eq_ok.mp done
  exact later middle (here cursor middle state firstDone) state value after nextDone

theorem yields_bind {other : β → Prop} (later : ∀ value, Yields other (next value)) :
    Yields other (first >>= next) := yields_any.bind fun value _ => later value

theorem yields_pure {property : α → Prop} {value : α} (holds : property value) :
    Yields property (pure value : Decoder ε α) := by
  intro cursor found after done
  obtain ⟨rfl, -⟩ := pure_eq_ok.mp done
  exact holds

theorem Yields.within {property : α → Prop} {piece : ByteLists.Bytes}
    (here : Yields property decoder) : Yields property (Cursors.within piece decoder) := by
  intro cursor value after done
  cases ran : decoder ⟨0, piece, cursor.reserved⟩ with
  | mk result inner =>
      simp only [Cursors.within, ran, Prod.mk.injEq] at done
      obtain ⟨rfl, -⟩ := done
      exact here _ value inner ran

theorem yields_lift {property : α → Prop} {result : Outcome ε α}
    (holds : ∀ value, result = .ok value → property value) :
    Yields property (lift result : Decoder ε α) := by
  intro cursor value after done
  exact holds value (lift_eq_ok.mp done).1

theorem yields_foldEach {property : β → Prop} {items : List α} {value : β}
    {body : β → α → Decoder ε β} (start : property value)
    (each : ∀ value item, property value → Yields property (body value item)) :
    Yields property (Command.foldEach items value body) := by
  induction items generalizing value with
  | nil => exact yields_pure start
  | cons item items ih => exact (each value item start).bind fun _ holds => ih holds

end Cursors
