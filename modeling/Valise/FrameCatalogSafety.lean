import Valise.FrameCatalogWire
import Valise.Library.CursorBounds

/-!
The decoder of the frame catalog on arbitrary bytes: on which of them it neither aborts nor makes
room past a limit, and that it then returns as many rows as the bytes declare.
-/

namespace Valise

open ByteLists Columns Commands Command Cursors Outcomes Wire

namespace FrameCatalogCodec

open SegmentCodec

/-! ### The primitives never abort -/

section Primitives

variable (segment : String)

theorem plain_u8 : Plain (readU8 segment) := plain_takeByte _

theorem plain_u16 : Plain (readU16 segment) := (plain_takeNumber _ 2).bind fun _ => plain_pure _

theorem plain_u32 : Plain (readU32 segment) := (plain_takeNumber _ 4).bind fun _ => plain_pure _

theorem plain_u64 : Plain (readU64 segment) := (plain_takeNumber _ 8).bind fun _ => plain_pure _

theorem plain_i64 : Plain (readI64 segment) := (plain_u64 segment).bind fun _ => plain_pure _

theorem plain_checksum : Plain (readChecksum segment) := by
  refine (plain_takeBytes _ _).bind fun bytes => ?_
  by_cases fits : bytes.length = blake3Len
  · simp only [dif_pos fits]
    exact plain_pure _
  · simp only [dif_neg fits]
    exact plain_lift (err_ne_panic _)

theorem plain_uvarint : Plain (readUvarint segment) := plain_takeBase128 _ _ _ _ _

theorem plain_ivarint : Plain (readIvarint segment) :=
  (plain_uvarint segment).bind fun _ => plain_pure _

theorem plain_u32Varint (tooLarge : String) : Plain (readU32Varint segment tooLarge) :=
  (plain_uvarint segment).bind fun _ =>
    (plain_lift Outcome.ensure_ne_panic).bind fun _ => plain_pure _

theorem plain_blob : Plain (readBlob segment) :=
  (plain_u32 segment).bind fun length => plain_rest fun rest =>
    plain_takeBytes (fun _ => blobTruncated segment length.toNat rest.length) length.toNat

theorem plain_segmentRef : Plain (readSegmentRef segment) :=
  (plain_u64 segment).bind fun _ => (plain_u64 segment).bind fun _ =>
    (plain_u64 segment).bind fun _ => (plain_checksum segment).bind fun _ => plain_pure _

theorem plain_laterIds (overflow : String) (count prev : Nat) :
    Plain (readLaterIds segment overflow count prev) := by
  induction count generalizing prev with
  | zero => exact plain_pure []
  | succ count ih =>
      refine (plain_uvarint segment).bind fun delta => ?_
      refine (plain_lift Outcome.ensure_ne_panic).bind fun _ => ?_
      exact (ih (prev + delta)).bind fun _ => plain_pure _

theorem checked_ne_panic (value : Int) (error : Error) : checked value error ≠ .panic := by
  unfold checked
  split
  · exact ok_ne_panic value
  · exact err_ne_panic error

theorem plain_laterDates (stepOverflow valueOverflow : String) (count : Nat) (prev prevStep : Int) :
    Plain (readLaterDates segment stepOverflow valueOverflow count prev prevStep) := by
  induction count generalizing prev prevStep with
  | zero => exact plain_pure []
  | succ count ih =>
      refine (plain_ivarint segment).bind fun change => ?_
      refine (plain_lift (checked_ne_panic _ _)).bind fun step => ?_
      refine (plain_lift (checked_ne_panic _ _)).bind fun date => ?_
      exact (ih date step).bind fun _ => plain_pure _

theorem plain_offsets (overflow : String) (created : List Int64) :
    Plain (readOffsets segment overflow created) := by
  induction created with
  | nil => exact plain_pure []
  | cons date created ih =>
      refine (plain_ivarint segment).bind fun offset => ?_
      exact (plain_lift (checked_ne_panic _ _)).bind fun _ => ih.bind fun _ => plain_pure _

end Primitives

theorem plain_previousRoot : Plain readPreviousRoot := by
  refine (plain_u8 segmentName).bind fun flag => (plain_u8 segmentName).bind fun _ => ?_
  split
  · exact plain_pure none
  · split
    · exact (plain_segmentRef segmentName).bind fun _ => plain_pure _
    · exact plain_lift (err_ne_panic _)

theorem plain_header : Plain readHeader := by
  refine ((plain_takeBytes _ _).bind fun _ => plain_lift Outcome.ensure_ne_panic).bind fun _ => ?_
  refine ((plain_u16 segmentName).bind fun _ => plain_lift Outcome.ensure_ne_panic).bind fun _ => ?_
  exact (plain_u32 segmentName).bind fun _ => plain_previousRoot.bind fun _ => plain_pure _

theorem plain_metadata : Plain readMetadata :=
  (plain_u64 segmentName).bind fun _ => (plain_uvarint segmentName).bind fun _ =>
    (plain_uvarint segmentName).bind fun _ => (plain_checksum segmentName).bind fun _ =>
      plain_pure _

theorem plain_optionalU64 : Plain readOptionalU64 :=
  (plain_uvarint segmentName).bind fun _ => plain_pure _

theorem plain_payload (prev : Option PayloadRef) : Plain (readPayload prev) := by
  cases prev with
  | none =>
      exact (plain_u64 segmentName).bind fun _ => (plain_uvarint segmentName).bind fun _ =>
        (plain_uvarint segmentName).bind fun _ => plain_pure _
  | some prev =>
      exact (plain_ivarint segmentName).bind fun _ => (plain_ivarint segmentName).bind fun _ =>
        (plain_uvarint segmentName).bind fun _ => plain_pure _

theorem storeChecked_ne_panic {α : Type} (column : String) (values : List (Option α)) (row : Nat)
    (value : α) : storeChecked column values row value ≠ .panic :=
  Outcome.bind_ne_panic Outcome.ensure_ne_panic fun _ => ok_ne_panic _

theorem plain_payloads (prev : Option PayloadRef) (rows : List Nat)
    (values : List (Option PayloadRef)) : Plain (readPayloads prev rows values) := by
  induction rows generalizing prev values with
  | nil => exact plain_pure values
  | cons row rows ih =>
      refine (plain_payload prev).bind fun ref => ?_
      exact (plain_lift (storeChecked_ne_panic _ _ _ _)).bind fun values => ih (some ref) values

theorem plain_presentRows (count prev : Nat) : Plain (readPresentRows count prev) := by
  induction count generalizing prev with
  | zero => exact plain_pure []
  | succ count ih =>
      refine (plain_uvarint segmentName).bind fun delta => ?_
      refine (plain_lift Outcome.ensure_ne_panic).bind fun _ => ?_
      refine (plain_lift Outcome.ensure_ne_panic).bind fun _ => ?_
      exact (ih (prev + delta)).bind fun _ => plain_pure _

/-! ### What the bytes of a column have to meet -/

/-- A column, behind its length. -/
def inBlob {α : Type} (column : Reader α) : Reader α := do
  let blob ← readBlob segmentName
  within blob column

/-- What holds of the blob, if there is one. -/
def UponBlob (property : Cursor → Prop) (cursor : Cursor) : Prop :=
  Upon (readBlob segmentName) cursor fun blob after => property ⟨0, blob, after.reserved⟩

/-- Where the first id can be read, there is room for the declared rows. -/
def RoomForRows (limit count : Nat) (cursor : Cursor) : Prop :=
  Upon (readU64 segmentName) cursor fun _ _ => count ≤ limit

/-- The run lengths that can be read add up to a number of 64 bits within the limit. -/
def RunsBounded {α : Type} (value : Reader α) (limit : Nat) (cursor : Cursor) : Prop :=
  Upon (readU32 segmentName) cursor fun runs after =>
    (readable (readRunLength value) runs.toNat after).sum < 2 ^ 64 ∧
      (readable (readRunLength value) runs.toNat after).sum ≤ limit

/-- There is room for the present rows that are declared. -/
def PresenceBounded (limit : Nat) (cursor : Cursor) : Prop :=
  Upon (readU32 segmentName) cursor fun present _ => present.toNat ≤ limit

/-- The present rows whose value can be read are rows of the catalog. -/
def RowsInside {α : Type} (value : Reader α) (count : Nat) (rows : List Nat) (cursor : Cursor) :
    Prop :=
  ∀ row ∈ rows.take (readable value rows.length cursor).length, row < count

/-- A column of present rows and their values, where the rows are not compared with the count. -/
def IndexedBounded {α : Type} (value : Reader α) (limit count : Nat) (cursor : Cursor) : Prop :=
  UponBlob (PresenceBounded limit) cursor ∧
    Upon (inBlob decodePresence) cursor fun rows cursor =>
      UponBlob (RowsInside value count rows) cursor

/-- Each column is asked for only where those before it were decoded. -/
def LaterColumnsBounded (limit count : Nat) (cursor : Cursor) : Prop :=
  UponBlob (RunsBounded (readU32 segmentName) limit) cursor ∧
    Upon (inBlob (decodeRleU32 count)) cursor fun _ cursor =>
  UponBlob (RunsBounded (readU8 segmentName) limit) cursor ∧
    Upon (inBlob (decodeRleU8 count)) cursor fun discs cursor =>
    Upon (lift (collect roleFromDisc discs)) cursor fun _ cursor =>
  UponBlob (RunsBounded (readU8 segmentName) limit) cursor ∧
    Upon (inBlob (decodeRleU8 count)) cursor fun discs cursor =>
    Upon (lift (collect statusFromDisc discs)) cursor fun _ cursor =>
  UponBlob (RunsBounded (readU8 segmentName) limit) cursor ∧
    Upon (inBlob (decodeRleU8 count)) cursor fun discs cursor =>
    Upon (lift (collect payloadEncodingFromDisc discs)) cursor fun _ cursor =>
  Upon (inBlob (readCreated count)) cursor fun created cursor =>
  Upon (inBlob (readUpdated count created)) cursor fun _ cursor =>
  UponBlob (PresenceBounded limit) cursor ∧
    Upon (decodePayloads count) cursor fun _ cursor =>
  UponBlob (PresenceBounded limit) cursor ∧
    Upon (decodeOptionalMetadataColumn count) cursor fun _ cursor =>
  UponBlob (PresenceBounded limit) cursor ∧
    Upon (decodeOptionalMetadataColumn count) cursor fun _ cursor =>
  UponBlob (PresenceBounded limit) cursor ∧
    Upon (decodeOptionalMetadataColumn count) cursor fun _ cursor =>
  UponBlob (PresenceBounded limit) cursor ∧
    Upon (decodeOptionalMetadataColumn count) cursor fun _ cursor =>
  IndexedBounded readOptionalU64 limit count cursor ∧
    Upon (decodeOptionalU64Column count) cursor fun _ cursor =>
  IndexedBounded (readU32Varint segmentName "FrameCatalog optional u32 overflow") limit count
      cursor ∧
    Upon (decodeOptionalU32Column count) cursor fun _ cursor =>
  IndexedBounded (readU32Varint segmentName "FrameCatalog optional u32 overflow") limit count cursor

def ColumnsBounded (limit count : Nat) (cursor : Cursor) : Prop :=
  UponBlob (RoomForRows limit count) cursor ∧
    Upon (inBlob (readFrameIds count)) cursor fun _ cursor => LaterColumnsBounded limit count cursor

/-- What the bytes have to meet. -/
def Bounded (limit : Nat) (bytes : Bytes) : Prop :=
  Upon readHeader (start bytes) fun header cursor =>
    header.1 ≠ 0 → ColumnsBounded limit header.1 cursor

/-! ### Each column -/

variable {limit count : Nat}

theorem within_inBlob {α : Type} {column : Reader α} {condition : Cursor → Prop}
    (inner : Within limit column condition) : Within limit (inBlob column) (UponBlob condition) where
  grows := (plain_blob segmentName).grows.bind fun _ => inner.grows.within
  fits_iff cursor room := by
    have kept := (plain_blob segmentName).reserved_eq cursor
    rw [inBlob, (plain_blob segmentName).fits_bind fun _ => inner.grows.within,
      and_iff_right room]
    refine upon_congr fun blob after done => ?_
    rw [done] at kept
    exact inner.fits_iff _ (kept.symm ▸ room)

/-- A blob and what its column decides, then the rest. -/
theorem within_column {α β : Type} {column : Reader α} {next : α → Reader β}
    {condition : Cursor → Prop} {later : α → Cursor → Prop}
    (inner : Within limit column condition) (after : ∀ value, Within limit (next value) (later value)) :
    Within limit (do
        let blob ← readBlob segmentName
        let value ← within blob column
        next value)
      (fun cursor => UponBlob condition cursor ∧ Upon (inBlob column) cursor later) := by
  have whole := (within_inBlob inner).bind after
  rwa [inBlob, bind_bind] at whole

theorem within_plainColumn {α β : Type} {column : Reader α} {next : α → Reader β}
    {condition : Cursor → Prop} {later : α → Cursor → Prop}
    (inner : Within limit column condition) (holds : ∀ cursor, condition cursor)
    (after : ∀ value, Within limit (next value) (later value)) :
    Within limit (do
        let blob ← readBlob segmentName
        let value ← within blob column
        next value) (fun cursor => Upon (inBlob column) cursor later) := by
  refine (within_column inner after).congr fun cursor => ?_
  exact and_iff_right fun blob final _ => holds _

theorem within_frameIds : Within limit (readFrameIds count) (RoomForRows limit count) where
  grows := (plain_u64 segmentName).grows.bind fun _ => (grows_reserve count).bind fun _ =>
    (plain_laterIds _ _ _ _).grows.bind fun _ => (plain_pure _).grows
  fits_iff cursor room := by
    have rest : ∀ first : UInt64, Plain (do
        let later ← readLaterIds segmentName "FrameCatalog frame_id delta overflow" (count - 1)
          first.toNat
        return first.toNat :: later) := fun first =>
      (plain_laterIds _ _ _ _).bind fun _ => plain_pure _
    have kept := (plain_u64 segmentName).reserved_eq cursor
    rw [readFrameIds, (plain_u64 segmentName).fits_bind fun first =>
      (grows_reserve count).bind fun _ => (rest first).grows, and_iff_right room]
    refine upon_congr fun first after done => ?_
    rw [done] at kept
    have bound : after.reserved ≤ limit := kept.symm ▸ room
    rw [fits_reserve_bind (rest first).grows, (rest first).fits]
    simp only [bound, true_and, Nat.max_le, and_self]

section Rle

variable {α : Type} {value : Reader α}

theorem plain_runLength (plain : Plain value) : Plain (readRunLength value) :=
  plain.bind fun _ => plain_uvarint segmentName

theorem grows_rleRuns (plain : Plain value) (runs total : Nat) :
    Grows (readRleRuns value runs total) := by
  induction runs generalizing total with
  | zero => exact (plain_pure _).grows
  | succ runs ih =>
      refine plain.grows.bind fun _ => (plain_uvarint segmentName).grows.bind fun _ => ?_
      refine (grows_lift _).bind fun total => (grows_reserve total).bind fun _ => ?_
      exact (ih total).bind fun _ => (plain_pure _).grows

theorem readable_succ {β : Type} {item : Reader β} {runs : Nat} {cursor after : Cursor} {found : β}
    (done : item cursor = (.ok found, after)) :
    readable item (runs + 1) cursor = found :: readable item runs after := by
  simp only [readable, done]

theorem readable_stopped {β : Type} {item : Reader β} {runs : Nat} {cursor after : Cursor}
    {result : Result β} (done : item cursor = (result, after)) (stopped : ∀ found, result ≠ .ok found) :
    readable item runs cursor = [] := by
  cases runs with
  | zero => rfl
  | succ runs =>
      cases result with
      | ok found => exact absurd rfl (stopped found)
      | err error => simp only [readable, done]
      | panic => simp only [readable, done]

/-- One run: its length is added without a check, then its rows are pushed. -/
theorem fits_pushRun {total length : Nat} {next : Nat → Reader α} {cursor : Cursor}
    (room : cursor.reserved ≤ limit) (grows : ∀ total, Grows (next total)) :
    Fits limit (do
        let total ← lift (addTotal total length)
        reserve total
        next total) cursor ↔
      (total + length < 2 ^ 64 ∧ total + length ≤ limit) ∧
        Fits limit (next (total + length))
          { cursor with reserved := max cursor.reserved (total + length) } := by
  have later : ∀ total, Grows (do reserve total; next total) := fun total =>
    (grows_reserve total).bind fun _ => grows total
  rw [fits_bind later]
  by_cases fits : total + length < 2 ^ 64
  · have added : (lift (addTotal total length) : Reader Nat) cursor = (.ok (total + length), cursor) := by
      rw [lift_apply, addTotal, if_pos fits]
      rfl
    rw [upon_of_ok added, Fits, added, fits_reserve_bind (grows _)]
    simp [ok_ne_panic, room, fits, -Nat.reducePow]
  · have aborts : (lift (addTotal total length) : Reader Nat) cursor = (.panic, cursor) := by
      rw [lift_apply, addTotal, if_neg fits]
    rw [Fits, aborts]
    simp [fits, -Nat.reducePow]

theorem fits_rleRuns (plain : Plain value) {runs total : Nat} {cursor : Cursor}
    (room : cursor.reserved ≤ limit) (small : total < 2 ^ 64) (bound : total ≤ limit) :
    Fits limit (readRleRuns value runs total) cursor ↔
      total + (readable (readRunLength value) runs cursor).sum < 2 ^ 64 ∧
        total + (readable (readRunLength value) runs cursor).sum ≤ limit := by
  induction runs generalizing total cursor with
  | zero =>
      rw [readRleRuns, fits_pure]
      simp [readable, room, small, bound, -Nat.reducePow]
  | succ runs ih =>
      have rest : ∀ (found : α) (length total : Nat), Grows (do
          let rest ← readRleRuns value runs total
          return (rest.1, List.replicate length found ++ rest.2)) := fun _ _ total =>
        (grows_rleRuns plain runs total).bind fun _ => (plain_pure _).grows
      have pushed : ∀ (found : α) (length : Nat), Grows (do
          let total ← lift (addTotal total length)
          reserve total
          let rest ← readRleRuns value runs total
          return (rest.1, List.replicate length found ++ rest.2)) := fun found length =>
        (grows_lift _).bind fun total => (grows_reserve total).bind fun _ => rest found length total
      have uvarint := plain_uvarint segmentName
      rw [readRleRuns, plain.fits_bind fun found => uvarint.grows.bind fun length =>
        pushed found length, and_iff_right room]
      have keptFirst := plain.reserved_eq cursor
      cases first : value cursor with
      | mk result middle =>
          rw [first] at keptFirst
          have middleRoom : middle.reserved ≤ limit := keptFirst.symm ▸ room
          cases result with
          | ok found =>
              rw [upon_of_ok first, uvarint.fits_bind fun length => pushed found length,
                and_iff_right middleRoom]
              have keptSecond := uvarint.reserved_eq middle
              cases second : readUvarint segmentName middle with
              | mk result after =>
                  rw [second] at keptSecond
                  have afterRoom : after.reserved ≤ limit := keptSecond.symm ▸ middleRoom
                  have run : readRunLength value cursor = (result, after) := by
                    rw [readRunLength, bind_of_ok first, second]
                  cases result with
                  | ok length =>
                      rw [upon_of_ok second, fits_pushRun afterRoom fun total => rest found length total,
                        readable_succ run, List.sum_cons]
                      have next : ∀ smaller : total + length < 2 ^ 64 ∧ total + length ≤ limit,
                          Fits limit (do
                              let rest ← readRleRuns value runs (total + length)
                              return (rest.1, List.replicate length found ++ rest.2))
                            { after with reserved := max after.reserved (total + length) } ↔
                          total + length + (readable (readRunLength value) runs after).sum < 2 ^ 64 ∧
                            total + length + (readable (readRunLength value) runs after).sum ≤ limit := by
                        intro smaller
                        rw [fits_then_plain fun _ => plain_pure _,
                          ih (Nat.max_le.mpr ⟨afterRoom, smaller.2⟩) smaller.1 smaller.2,
                          (plain_runLength plain).readable_room]
                      constructor
                      · rintro ⟨smaller, later⟩
                        have sums := (next smaller).mp later
                        omega
                      · intro sums
                        have smaller : total + length < 2 ^ 64 ∧ total + length ≤ limit := by omega
                        exact ⟨smaller, (next smaller).mpr (by omega)⟩
                  | err error =>
                      rw [readable_stopped run fun _ clash => by cases clash]
                      exact iff_of_true (upon_of_stopped second fun _ clash => by cases clash)
                        ⟨small, bound⟩
                  | panic => exact absurd (congrArg Prod.fst second) (uvarint middle).1
          | err error =>
              have run : readRunLength value cursor = (.err error, middle) := bind_of_err first
              rw [readable_stopped run fun _ clash => by cases clash]
              exact iff_of_true (upon_of_stopped first fun _ clash => by cases clash)
                ⟨small, bound⟩
          | panic => exact absurd (congrArg Prod.fst first) (plain cursor).1

theorem within_rle (plain : Plain value) (width : String) (room : count ≤ limit) :
    Within limit (decodeRle value width count) (RunsBounded value limit) := by
  have tail : ∀ rest : Nat × List α, Plain (do
      lift (Outcome.ensure (rest.1 = count) (.format
        s!"FrameCatalog RLE {width} covers {rest.1} rows but count={count}"))
      atEnd fun left => Error.format s!"FrameCatalog RLE {width} trailing: {left} bytes"
      return rest.2) := fun rest =>
    (plain_lift Outcome.ensure_ne_panic).bind fun _ => (plain_atEnd _).bind fun _ => plain_pure _
  have runs : ∀ runCount : UInt32, Within limit (do
      let rest ← readRleRuns value runCount.toNat 0
      lift (Outcome.ensure (rest.1 = count) (.format
        s!"FrameCatalog RLE {width} covers {rest.1} rows but count={count}"))
      atEnd fun left => Error.format s!"FrameCatalog RLE {width} trailing: {left} bytes"
      return rest.2) (fun cursor =>
        (readable (readRunLength value) runCount.toNat cursor).sum < 2 ^ 64 ∧
          (readable (readRunLength value) runCount.toNat cursor).sum ≤ limit) := by
    intro runCount
    refine ⟨(grows_rleRuns plain _ _).bind fun rest => (tail rest).grows, fun cursor bound => ?_⟩
    rw [fits_then_plain tail, fits_rleRuns plain bound (by decide) (Nat.zero_le _), Nat.zero_add]
  refine ((plain_u32 segmentName).within_bind fun runCount =>
    within_reserve_bind room (runs runCount)).congr fun cursor => ?_
  refine upon_congr fun runCount after _ => ?_
  rw [(plain_runLength plain).readable_room]

end Rle

theorem within_created (room : count ≤ limit) :
    Within limit (readCreated count) fun _ => True := by
  have later : ∀ first : Int64, Within limit (do
      reserve count
      let later ← readLaterDates segmentName "FrameCatalog created delta overflow"
        "FrameCatalog created value overflow" (count - 1) first.toInt 0
      return first :: later) fun _ => True := fun first =>
    within_reserve_plain room ((plain_laterDates _ _ _ _ _ _).bind fun _ => plain_pure _)
  refine ((plain_i64 segmentName).within_bind later).congr fun cursor => ?_
  exact iff_of_true (fun _ _ _ => trivial) trivial

theorem within_updated (created : List Int64) (room : count ≤ limit) :
    Within limit (readUpdated count created) fun _ => True :=
  within_reserve_plain room (plain_offsets _ _ _)

theorem within_presence : Within limit decodePresence (PresenceBounded limit) where
  grows := (plain_u32 segmentName).grows.bind fun present => (grows_reserve _).bind fun _ =>
    (plain_presentRows _ _).grows.bind fun _ => (plain_atEnd _).grows.bind fun _ =>
      (plain_pure _).grows
  fits_iff cursor room := by
    have rest : ∀ present : UInt32, Plain (do
        let rows ← readPresentRows present.toNat 0
        atEnd fun left => Error.format s!"FrameCatalog presence trailing: {left} bytes"
        return rows) := fun present =>
      (plain_presentRows _ _).bind fun _ => (plain_atEnd _).bind fun _ => plain_pure _
    have kept := (plain_u32 segmentName).reserved_eq cursor
    rw [decodePresence, (plain_u32 segmentName).fits_bind fun present =>
      (grows_reserve _).bind fun _ => (rest present).grows, and_iff_right room]
    refine upon_congr fun present after done => ?_
    rw [done] at kept
    have bound : after.reserved ≤ limit := kept.symm ▸ room
    rw [fits_reserve_bind (rest present).grows, (rest present).fits]
    simp only [bound, true_and, Nat.max_le, and_self]

section Sparse

variable {α : Type} {value : Reader α}
  {store : List (Option α) → Nat → α → Result (List (Option α))}

theorem within_sparse {rowsMeet : List Nat → Cursor → Prop} (trailing : String)
    (values : ∀ rows, Within limit (readValues value store trailing count rows) (rowsMeet rows)) :
    Within limit (decodeSparse value store trailing count) fun cursor =>
      UponBlob (PresenceBounded limit) cursor ∧
        Upon (inBlob decodePresence) cursor fun rows cursor => UponBlob (rowsMeet rows) cursor :=
  within_column within_presence fun rows => within_inBlob (values rows)

/-- A sparse column whose rows are compared with the count. -/
theorem within_metadata (room : count ≤ limit) :
    Within limit (decodeOptionalMetadataColumn count) (UponBlob (PresenceBounded limit)) := by
  have values : ∀ rows, Within limit (readValues readMetadata (storeChecked "metadata") "metadata"
      count rows) fun _ => True := fun rows =>
    within_reserve_plain room ((plain_foldEach fun values row => plain_metadata.bind fun ref =>
      plain_lift (storeChecked_ne_panic "metadata" values row ref)).bind fun _ =>
        (plain_atEnd _).bind fun _ => plain_pure _)
  refine (within_sparse "metadata" values).congr fun cursor => ?_
  exact and_iff_left fun rows after _ blob final _ => trivial

theorem within_payloads (room : count ≤ limit) :
    Within limit (decodePayloads count) (UponBlob (PresenceBounded limit)) := by
  have values : ∀ rows, Within limit (do
      reserve count
      readPayloads none rows (List.replicate count none)) fun _ => True := fun rows =>
    within_reserve_plain room (plain_payloads _ _ _)
  refine (within_column within_presence fun rows => within_inBlob (values rows)).congr fun cursor => ?_
  exact and_iff_left fun rows after _ blob final _ => trivial

theorem fits_storeRows (plain : Plain value) {rows : List Nat} {values : List (Option α)}
    {cursor : Cursor} (room : cursor.reserved ≤ limit) :
    Fits limit (foldEach rows values (storeRow value storeIndexed)) cursor ↔
      RowsInside value values.length rows cursor := by
  induction rows generalizing values cursor with
  | nil =>
      rw [foldEach, fits_pure]
      simp [RowsInside, room]
  | cons row rows ih =>
      have rest : ∀ values : List (Option α),
          Grows (foldEach rows values (storeRow value storeIndexed)) := fun values =>
        grows_foldEach fun values row => plain.grows.bind fun _ => grows_lift _
      have stored : ∀ found : α, Grows (do
          let values ← lift (storeIndexed values row found)
          foldEach rows values (storeRow value storeIndexed)) := fun found =>
        (grows_lift _).bind rest
      rw [foldEach, storeRow, bind_bind, plain.fits_bind stored, and_iff_right room]
      have kept := plain.reserved_eq cursor
      cases first : value cursor with
      | mk result after =>
          rw [first] at kept
          have afterRoom : after.reserved ≤ limit := kept.symm ▸ room
          cases result with
          | ok found =>
              rw [upon_of_ok first, RowsInside, List.length_cons, readable_succ first,
                List.length_cons, List.take_succ_cons, List.forall_mem_cons]
              by_cases inside : row < values.length
              · have done : (lift (storeIndexed values row found) : Reader _) after =
                    (.ok (values.set row (some found)), after) := by
                  rw [lift_apply, storeIndexed, if_pos inside]
                  rfl
                rw [fits_bind rest, upon_of_ok done, ih afterRoom, List.length_set, Fits, done]
                simp [RowsInside, ok_ne_panic, afterRoom, inside]
              · have aborts : (lift (storeIndexed values row found) : Reader _) after =
                    (.panic, after) := by
                  rw [lift_apply, storeIndexed, if_neg inside]
                rw [fits_bind rest, Fits, aborts]
                simp [inside]
          | err error =>
              rw [RowsInside, readable_stopped first fun _ clash => by cases clash]
              exact iff_of_true (upon_of_stopped first fun _ clash => by cases clash) (by simp)
          | panic => exact absurd (congrArg Prod.fst first) (plain cursor).1

/-- A sparse column whose rows are not compared with anything. -/
theorem within_indexed (plain : Plain value) (trailing : String) (room : count ≤ limit) :
    Within limit (decodeSparse value storeIndexed trailing count)
      (IndexedBounded value limit count) := by
  refine within_sparse trailing fun rows => ?_
  have tail : ∀ values : List (Option α), Plain (do
      atEnd fun left => Error.format s!"FrameCatalog {trailing} values trailing: {left} bytes"
      return values) := fun values => (plain_atEnd _).bind fun _ => plain_pure _
  have loop : Within limit (do
      let values ← foldEach rows (List.replicate count none) (storeRow value storeIndexed)
      atEnd fun left => Error.format s!"FrameCatalog {trailing} values trailing: {left} bytes"
      return values) (RowsInside value count rows) := by
    refine ⟨?_, fun cursor bound => ?_⟩
    · exact (grows_foldEach fun values row => plain.grows.bind fun _ => grows_lift _).bind
        fun values => (tail values).grows
    · rw [fits_then_plain tail, fits_storeRows plain bound, List.length_replicate]
  refine (within_reserve_bind room loop).congr fun cursor => ?_
  rw [RowsInside, RowsInside, plain.readable_room]

end Sparse

/-! ### The columns together -/

theorem collect_ne_panic {α β : Type} {step : α → Result β} {items : List α}
    (each : ∀ item ∈ items, step item ≠ .panic) : collect step items ≠ .panic := by
  induction items with
  | nil => exact ok_ne_panic []
  | cons item items ih =>
      have later := ih fun other member => each other (List.mem_cons_of_mem _ member)
      exact Outcome.bind_ne_panic (each item List.mem_cons_self) fun _ =>
        Outcome.bind_ne_panic later fun _ => ok_ne_panic _

theorem roleFromDisc_ne_panic (disc : UInt8) : roleFromDisc disc ≠ .panic := by
  unfold roleFromDisc
  split_ifs <;> nofun

theorem statusFromDisc_ne_panic (disc : UInt8) : statusFromDisc disc ≠ .panic := by
  unfold statusFromDisc
  split_ifs <;> nofun

theorem payloadEncodingFromDisc_ne_panic (disc : UInt8) : payloadEncodingFromDisc disc ≠ .panic := by
  unfold payloadEncodingFromDisc
  split_ifs <;> nofun

/-- A column of discriminants, each of which stands for something or is refused. -/
theorem within_discs {β γ : Type} {fromDisc : UInt8 → Result β} {next : List β → Reader γ}
    {later : Cursor → Prop} (refused : ∀ disc, fromDisc disc ≠ .panic) (room : count ≤ limit)
    (after : ∀ values, Within limit (next values) later) :
    Within limit (do
        let blob ← readBlob segmentName
        let discs ← within blob (decodeRleU8 count)
        let values ← lift (collect fromDisc discs)
        next values) (fun cursor => UponBlob (RunsBounded (readU8 segmentName) limit) cursor ∧
      Upon (inBlob (decodeRleU8 count)) cursor fun discs cursor =>
        Upon (lift (collect fromDisc discs)) cursor fun _ cursor => later cursor) :=
  within_column (within_rle (plain_u8 segmentName) "u8" room) fun _ =>
    (plain_lift (collect_ne_panic fun disc _ => refused disc)).within_bind after

theorem room_of_frameIds {cursor after : Cursor} {ids : List Nat}
    (declared : UponBlob (RoomForRows limit count) cursor)
    (done : inBlob (readFrameIds count) cursor = (.ok ids, after)) : count ≤ limit := by
  obtain ⟨blob, middle, blobDone, idsDone⟩ := bind_eq_ok.mp done
  cases ran : readFrameIds count ⟨0, blob, middle.reserved⟩ with
  | mk result inner =>
      simp only [within, ran, Prod.mk.injEq] at idsDone
      obtain ⟨rfl, -⟩ := idsDone
      obtain ⟨first, later, firstDone, _⟩ := bind_eq_ok.mp ran
      exact declared blob middle blobDone first later firstDone

theorem within_laterColumns (room : count ≤ limit) (ids : List Nat) :
    Within limit (readLaterColumns count ids) (LaterColumnsBounded limit count) := by
  unfold readLaterColumns LaterColumnsBounded
  refine within_column (within_rle (plain_u32 segmentName) "u32" room) fun collections => ?_
  refine within_discs roleFromDisc_ne_panic room fun roles => ?_
  refine within_discs statusFromDisc_ne_panic room fun statuses => ?_
  refine within_discs payloadEncodingFromDisc_ne_panic room fun encodings => ?_
  refine within_plainColumn (within_created room) (fun _ => trivial) fun created => ?_
  refine within_plainColumn (within_updated created room) (fun _ => trivial) fun updated => ?_
  refine (within_payloads room).bind fun payloads => (within_metadata room).bind fun uris => ?_
  refine (within_metadata room).bind fun titles => (within_metadata room).bind fun texts => ?_
  refine (within_metadata room).bind fun metadata => ?_
  refine (within_indexed plain_optionalU64 "optional u64" room).bind fun parents => ?_
  refine (within_indexed (plain_u32Varint _ _) "optional u32" room).bind fun indices => ?_
  exact (within_indexed (plain_u32Varint _ _) "optional u32" room).then_plain fun _ => plain_pure _

theorem fits_columns {cursor : Cursor} (room : cursor.reserved ≤ limit) :
    Fits limit (readColumns count) cursor ↔ ColumnsBounded limit count cursor := by
  have grows : ∀ ids, Grows (readLaterColumns count ids) := fun ids =>
    (within_laterColumns (Nat.le_refl count) ids).grows
  have first := (@within_inBlob limit _ _ _ (@within_frameIds limit count)).fits_iff cursor room
  unfold readColumns ColumnsBounded
  rw [← bind_bind]
  change Fits limit (inBlob (readFrameIds count) >>= readLaterColumns count) cursor ↔ _
  rw [fits_bind grows, first]
  refine and_congr_right fun declared => upon_congr fun ids after done => ?_
  have bound := (first.mpr declared).2
  rw [done] at bound
  exact (within_laterColumns (room_of_frameIds declared done) ids).fits_iff after bound

/-! ### As many rows as declared -/

/-- Every column has a value for each row. -/
structure Sized (count : Nat) (columns : DecodedColumns) : Prop where
  frameIds : columns.frameIds.length = count
  collectionIds : columns.collectionIds.length = count
  roles : columns.roles.length = count
  createdAt : columns.createdAt.length = count
  updatedAt : columns.updatedAt.length = count
  uriRefs : columns.uriRefs.length = count
  titleRefs : columns.titleRefs.length = count
  payloadRefs : columns.payloadRefs.length = count
  payloadEncodings : columns.payloadEncodings.length = count
  searchTextRefs : columns.searchTextRefs.length = count
  parentFrameIds : columns.parentFrameIds.length = count
  chunkIndices : columns.chunkIndices.length = count
  chunkCounts : columns.chunkCounts.length = count
  metadataRefs : columns.metadataRefs.length = count
  statuses : columns.statuses.length = count

/-- The decoder gives a list of this length. -/
abbrev Gives {α : Type} (length : Nat) (decoder : Reader (List α)) : Prop :=
  Yields (fun values => values.length = length) decoder

theorem gives_laterIds (overflow : String) (prev : Nat) :
    Gives count (readLaterIds segmentName overflow count prev) := by
  induction count generalizing prev with
  | zero => exact yields_pure rfl
  | succ count ih =>
      refine yields_bind fun delta => yields_bind fun _ => ?_
      exact (ih (prev + delta)).bind fun later length => yields_pure (congrArg (· + 1) length)

theorem gives_frameIds (rows : 0 < count) : Gives count (readFrameIds count) := by
  refine yields_bind fun first => yields_bind fun _ => ?_
  refine (gives_laterIds _ _).bind fun later length => yields_pure ?_
  rw [List.length_cons, length]
  omega

theorem gives_laterDates (stepOverflow valueOverflow : String) (prev prevStep : Int) :
    Gives count (readLaterDates segmentName stepOverflow valueOverflow count prev prevStep) := by
  induction count generalizing prev prevStep with
  | zero => exact yields_pure rfl
  | succ count ih =>
      refine yields_bind fun change => yields_bind fun step => yields_bind fun date => ?_
      exact (ih date step).bind fun later length => yields_pure (congrArg (· + 1) length)

theorem gives_created (rows : 0 < count) : Gives count (readCreated count) := by
  refine yields_bind fun first => yields_bind fun _ => ?_
  refine (gives_laterDates _ _ _ _).bind fun later length => yields_pure ?_
  rw [List.length_cons, length]
  omega

theorem gives_offsets (overflow : String) (created : List Int64) :
    Gives created.length (readOffsets segmentName overflow created) := by
  induction created with
  | nil => exact yields_pure rfl
  | cons date created ih =>
      refine yields_bind fun offset => yields_bind fun updated => ?_
      exact ih.bind fun later length => yields_pure (congrArg (· + 1) length)

theorem collect_length {α β : Type} {step : α → Result β} {items : List α} {values : List β}
    (collected : collect step items = .ok values) : values.length = items.length := by
  induction items generalizing values with
  | nil =>
      obtain rfl := Outcome.ok.inj collected
      rfl
  | cons item items ih =>
      simp only [collect, Outcome.bind_eq_ok, Outcome.pure_eq, Outcome.ok.injEq] at collected
      obtain ⟨value, _, later, laterCollected, rfl⟩ := collected
      rw [List.length_cons, List.length_cons, ih laterCollected]

section Rle

variable {α : Type} {value : Reader α}

theorem yields_rleRuns (runs total : Nat) :
    Yields (fun rest => rest.1 = total + rest.2.length) (readRleRuns value runs total) := by
  induction runs generalizing total with
  | zero => exact yields_pure rfl
  | succ runs ih =>
      refine yields_bind fun found => yields_bind fun length => ?_
      have added : Yields (fun sum => sum = total + length)
          (lift (addTotal total length) : Reader Nat) := yields_lift fun sum done => by
        unfold addTotal at done
        split at done
        · exact (Outcome.ok.inj done).symm
        · cases done
      refine added.bind fun sum same => yields_bind fun _ => (ih sum).bind fun rest later => ?_
      refine yields_pure ?_
      rw [List.length_append, List.length_replicate, later, same, Nat.add_assoc]

theorem gives_rle (width : String) : Gives count (decodeRle value width count) := by
  refine yields_bind fun runs => yields_bind fun _ => ?_
  refine (yields_rleRuns runs.toNat 0).bind fun rest total => ?_
  have covers : Yields (fun _ => rest.1 = count) (lift (Outcome.ensure (rest.1 = count)
      (Error.format s!"FrameCatalog RLE {width} covers {rest.1} rows but count={count}")) :
        Reader Unit) := yields_lift fun _ done => Outcome.ensure_eq_ok.mp done
  refine covers.bind fun _ same => yields_bind fun _ => yields_pure ?_
  omega

end Rle

section Sparse

variable {α : Type} {value : Reader α}
  {store : List (Option α) → Nat → α → Result (List (Option α))}

/-- The store changes one place and moves none. -/
def KeepsLength (store : List (Option α) → Nat → α → Result (List (Option α))) : Prop :=
  ∀ values row value after, store values row value = .ok after → after.length = values.length

theorem storeChecked_length (column : String) : KeepsLength (@storeChecked α column) := by
  intro values row value after stored
  simp only [storeChecked, Outcome.bind_eq_ok, Outcome.pure_eq, Outcome.ok.injEq] at stored
  obtain ⟨_, _, rfl⟩ := stored
  exact List.length_set

theorem storeIndexed_length : KeepsLength (@storeIndexed α) := by
  intro values row value after stored
  unfold storeIndexed at stored
  split at stored
  · obtain rfl := Outcome.ok.inj stored
    exact List.length_set
  · cases stored

theorem gives_values (keeps : KeepsLength store) (trailing : String) (rows : List Nat) :
    Gives count (readValues value store trailing count rows) := by
  refine yields_bind fun _ => ?_
  have loop : Gives count (foldEach rows (List.replicate count none) (storeRow value store)) := by
    refine yields_foldEach List.length_replicate fun values row length => ?_
    exact yields_bind fun found => yields_lift fun after stored =>
      (keeps values row found after stored).trans length
  exact loop.bind fun values length => yields_bind fun _ => yields_pure length

theorem gives_sparse (keeps : KeepsLength store) (trailing : String) :
    Gives count (decodeSparse value store trailing count) :=
  yields_bind fun _ => yields_bind fun rows => yields_bind fun _ =>
    (gives_values keeps trailing rows).within

end Sparse

theorem gives_payloads (prev : Option PayloadRef) (rows : List Nat)
    {values : List (Option PayloadRef)} (length : values.length = count) :
    Gives count (readPayloads prev rows values) := by
  induction rows generalizing prev values with
  | nil => exact yields_pure length
  | cons row rows ih =>
      refine yields_bind fun ref => ?_
      have stored : Gives count (lift (storeChecked "payload_ref" values row ref)) :=
        yields_lift fun after done => (storeChecked_length _ _ _ _ _ done).trans length
      exact stored.bind fun after kept => ih (some ref) kept

theorem gives_payloadColumn : Gives count (decodePayloads count) := by
  refine yields_bind fun _ => yields_bind fun rows => yields_bind fun _ => ?_
  exact (yields_bind fun _ => gives_payloads none rows List.length_replicate).within

theorem yields_discs {β : Type} {property : DecodedColumns → Prop} {fromDisc : UInt8 → Result β}
    {next : List β → Reader DecodedColumns}
    (later : ∀ values : List β, values.length = count → Yields property (next values)) :
    Yields property (do
      let blob ← readBlob segmentName
      let discs ← within blob (decodeRleU8 count)
      let values ← lift (collect fromDisc discs)
      next values) := by
  refine yields_bind fun blob => (gives_rle "u8").within.bind fun discs length => ?_
  have collected : Gives count (lift (collect fromDisc discs)) :=
    yields_lift fun values done => (collect_length done).trans length
  exact collected.bind later

theorem yields_columns (rows : 0 < count) : Yields (Sized count) (readColumns count) := by
  unfold readColumns readLaterColumns
  refine yields_bind fun _ => (gives_frameIds rows).within.bind fun ids idsLength => ?_
  refine yields_bind fun _ => (gives_rle "u32").within.bind fun _ collectionsLength => ?_
  refine yields_discs fun _ rolesLength => yields_discs fun _ statusesLength => ?_
  refine yields_discs fun _ encodingsLength => ?_
  refine yields_bind fun _ => (gives_created rows).within.bind fun created createdLength => ?_
  have updates : Gives count (readUpdated count created) :=
    yields_bind fun _ => createdLength ▸ gives_offsets _ created
  refine yields_bind fun _ => updates.within.bind fun _ updatedLength => ?_
  have metadata : Gives count (decodeOptionalMetadataColumn count) :=
    gives_sparse (storeChecked_length _) _
  have parents : Gives count (decodeOptionalU64Column count) := gives_sparse storeIndexed_length _
  have chunks : Gives count (decodeOptionalU32Column count) := gives_sparse storeIndexed_length _
  refine gives_payloadColumn.bind fun _ payloadsLength => metadata.bind fun _ urisLength => ?_
  refine metadata.bind fun _ titlesLength => metadata.bind fun _ textsLength => ?_
  refine metadata.bind fun _ metadataLength => parents.bind fun _ parentsLength => ?_
  refine chunks.bind fun _ indicesLength => chunks.bind fun _ countsLength => yields_pure ?_
  exact ⟨(List.length_map _).trans idsLength, collectionsLength, rolesLength, createdLength,
    updatedLength, urisLength, titlesLength, payloadsLength, encodingsLength, textsLength,
    parentsLength, indicesLength, countsLength, metadataLength, statusesLength⟩

theorem indexed_ne_panic {α : Type} {column : List α} {row : Nat}
    (length : column.length = count) (inside : row < count) : indexed column row ≠ .panic := by
  subst length
  rw [indexed, List.getElem?_eq_getElem inside]
  exact ok_ne_panic _

theorem frame_ne_panic {columns : DecodedColumns} (sized : Sized count columns) {row : Nat}
    (inside : row < count) : columns.frame row ≠ .panic := by
  unfold DecodedColumns.frame
  refine Outcome.bind_ne_panic (indexed_ne_panic sized.frameIds inside) fun _ => ?_
  refine Outcome.bind_ne_panic (indexed_ne_panic sized.collectionIds inside) fun _ => ?_
  refine Outcome.bind_ne_panic (indexed_ne_panic sized.roles inside) fun _ => ?_
  refine Outcome.bind_ne_panic (indexed_ne_panic sized.createdAt inside) fun _ => ?_
  refine Outcome.bind_ne_panic (indexed_ne_panic sized.updatedAt inside) fun _ => ?_
  refine Outcome.bind_ne_panic (indexed_ne_panic sized.uriRefs inside) fun _ => ?_
  refine Outcome.bind_ne_panic (indexed_ne_panic sized.titleRefs inside) fun _ => ?_
  refine Outcome.bind_ne_panic (indexed_ne_panic sized.payloadRefs inside) fun _ => ?_
  refine Outcome.bind_ne_panic (indexed_ne_panic sized.payloadEncodings inside) fun _ => ?_
  refine Outcome.bind_ne_panic (indexed_ne_panic sized.searchTextRefs inside) fun _ => ?_
  refine Outcome.bind_ne_panic (indexed_ne_panic sized.parentFrameIds inside) fun _ => ?_
  refine Outcome.bind_ne_panic (indexed_ne_panic sized.chunkIndices inside) fun _ => ?_
  refine Outcome.bind_ne_panic (indexed_ne_panic sized.chunkCounts inside) fun _ => ?_
  refine Outcome.bind_ne_panic (indexed_ne_panic sized.metadataRefs inside) fun _ => ?_
  exact Outcome.bind_ne_panic (indexed_ne_panic sized.statuses inside) fun _ => ok_ne_panic _

/-! ### The whole catalog -/

theorem grows_columns : Grows (readColumns count) := by
  unfold readColumns
  rw [← bind_bind]
  exact (@within_inBlob 0 _ _ _ within_frameIds).grows.bind fun ids =>
    (within_laterColumns (Nat.le_refl count) ids).grows

theorem grows_frames : Grows (readFrames count) := grows_columns.bind fun _ => grows_lift _

theorem fits_frames {cursor : Cursor} (rows : 0 < count) (room : cursor.reserved ≤ limit) :
    Fits limit (readFrames count) cursor ↔ ColumnsBounded limit count cursor := by
  rw [readFrames, fits_bind fun _ => grows_lift _, fits_columns room]
  refine and_iff_left_of_imp fun bounded columns after done => ?_
  have fits := ((fits_columns room).mpr bounded).2
  rw [done] at fits
  have sized := yields_columns rows cursor columns after done
  have runs : collect columns.frame (List.range count) ≠ .panic := collect_ne_panic fun row member =>
    frame_ne_panic sized (List.mem_range.mp member)
  exact (plain_lift runs).fits.mpr fits

theorem fits_delta (limit : Nat) (bytes : Bytes) :
    Fits limit readDelta (start bytes) ↔ Bounded limit bytes := by
  have grows : ∀ header : Nat × Option SegmentRef, Grows (if header.1 = 0 then
      pure ⟨header.2, []⟩ else do
        let frames ← readFrames header.1
        return (⟨header.2, frames⟩ : FrameCatalogDelta)) := by
    intro header
    split
    · exact (plain_pure _).grows
    · exact grows_frames.bind fun _ => (plain_pure _).grows
  have nothing : (start bytes).reserved ≤ limit := Nat.zero_le limit
  rw [readDelta, plain_header.fits_bind grows, and_iff_right nothing]
  refine upon_congr fun header after done => ?_
  have kept := plain_header.reserved_eq (start bytes)
  rw [done] at kept
  have room : after.reserved ≤ limit := kept.symm ▸ Nat.zero_le limit
  by_cases empty : header.1 = 0
  · rw [if_pos empty, fits_pure]
    exact iff_of_true room fun some => absurd empty some
  · rw [if_neg empty, fits_then_plain fun _ => plain_pure _,
      fits_frames (Nat.pos_of_ne_zero empty) room]
    exact ⟨fun bounded _ => bounded, fun bounded => bounded empty⟩

/-- The count that stands behind the magic and the version. -/
def declaredCount (bytes : Bytes) : Nat := getLittleEndian ((bytes.drop 6).take 4)

theorem takeBytes_eq_ok {short : Nat → Error} {length : Nat} {cursor after : Cursor} {found : Bytes}
    (done : takeBytes short length cursor = (.ok found, after)) :
    found = cursor.rest.take length ∧ after.rest = cursor.rest.drop length ∧
      length ≤ cursor.rest.length := by
  unfold takeBytes at done
  split at done
  · simp only [Prod.mk.injEq, Outcome.ok.injEq] at done
    obtain ⟨rfl, rfl⟩ := done
    exact ⟨rfl, rfl, by assumption⟩
  · simp at done

theorem header_count {bytes : Bytes} {header : Nat × Option SegmentRef} {after : Cursor}
    (done : readHeader (start bytes) = (.ok header, after)) : header.1 = declaredCount bytes := by
  obtain ⟨_, behindMagic, magicDone, afterMagic⟩ := bind_eq_ok.mp done
  obtain ⟨_, behindVersion, versionDone, afterVersion⟩ := bind_eq_ok.mp afterMagic
  obtain ⟨count, behindCount, countDone, afterCount⟩ := bind_eq_ok.mp afterVersion
  obtain ⟨_, _, _, last⟩ := bind_eq_ok.mp afterCount
  obtain ⟨rfl, -⟩ := pure_eq_ok.mp last
  have pastMagic : behindMagic.rest = bytes.drop 4 := by
    obtain ⟨_, state, read, checkDone⟩ := bind_eq_ok.mp magicDone
    obtain ⟨-, rfl⟩ := lift_eq_ok.mp checkDone
    exact (takeBytes_eq_ok read).2.1
  have pastVersion : behindVersion.rest = bytes.drop 6 := by
    obtain ⟨_, state, read, checkDone⟩ := bind_eq_ok.mp versionDone
    obtain ⟨-, rfl⟩ := lift_eq_ok.mp checkDone
    obtain ⟨_, inner, number, wrapped⟩ := bind_eq_ok.mp read
    obtain ⟨-, rfl⟩ := pure_eq_ok.mp wrapped
    obtain ⟨_, last, taken, wrapped⟩ := bind_eq_ok.mp number
    obtain ⟨-, rfl⟩ := pure_eq_ok.mp wrapped
    rw [(takeBytes_eq_ok taken).2.1, pastMagic, List.drop_drop]
  obtain ⟨_, _, number, wrapped⟩ := bind_eq_ok.mp countDone
  obtain ⟨rfl, -⟩ := pure_eq_ok.mp wrapped
  obtain ⟨_, _, taken, wrapped⟩ := bind_eq_ok.mp number
  obtain ⟨rfl, -⟩ := pure_eq_ok.mp wrapped
  obtain ⟨rfl, _, enough⟩ := takeBytes_eq_ok taken
  rw [pastVersion] at enough ⊢
  have small := getLittleEndian_lt ((bytes.drop 6).take 4)
  rw [List.length_take_of_le enough] at small
  simpa [declaredCount] using small

theorem delta_rows {bytes : Bytes} {delta : FrameCatalogDelta}
    (decoded : decodeFrameCatalog bytes = .ok delta) :
    delta.frames.length = declaredCount bytes := by
  obtain ⟨after, done⟩ : ∃ after, readDelta (start bytes) = (.ok delta, after) :=
    ⟨_, Prod.ext decoded (Eq.refl _)⟩
  obtain ⟨header, middle, headerDone, rest⟩ := bind_eq_ok.mp done
  rw [← header_count headerDone]
  by_cases empty : header.1 = 0
  · rw [if_pos empty] at rest
    obtain ⟨rfl, -⟩ := pure_eq_ok.mp rest
    exact empty.symm
  · rw [if_neg empty] at rest
    obtain ⟨frames, last, framesDone, wrapped⟩ := bind_eq_ok.mp rest
    obtain ⟨rfl, -⟩ := pure_eq_ok.mp wrapped
    obtain ⟨columns, _, _, collected⟩ := bind_eq_ok.mp framesDone
    exact (collect_length (lift_eq_ok.mp collected).1).trans List.length_range

/-- Decoding returns, with as many rows as declared or an error, and makes no room past the limit. -/
structure Safe (limit : Nat) (bytes : Bytes) : Prop where
  returns : decodeFrameCatalog bytes ≠ .panic
  rows : ∀ delta, decodeFrameCatalog bytes = .ok delta → delta.frames.length = declaredCount bytes
  room : (readDelta (start bytes)).2.reserved ≤ limit

/-- Decoding is safe on just the bytes whose lengths and rows are bounded. -/
theorem safe_iff_bounded (limit : Nat) (bytes : Bytes) : Safe limit bytes ↔ Bounded limit bytes := by
  rw [← fits_delta]
  constructor
  · intro safe
    exact ⟨safe.returns, safe.room⟩
  · intro fits
    exact ⟨fits.1, fun delta decoded => delta_rows decoded, fits.2⟩

/-- One row without optional values, but with a parent for row five. -/
def foreignParent : Bytes :=
  let blob := fun bytes : Bytes => putLittleEndian 4 bytes.length ++ bytes
  let run := fun value : Bytes => blob (putLittleEndian 4 1 ++ value ++ [1])
  let empty := blob (putLittleEndian 4 0) ++ blob []
  magic ++ writeU16 version ++ putLittleEndian 4 1 ++ [0, 0] ++ blob (writeU64 1) ++
    run (writeU32 1) ++ run [0] ++ run [0] ++ run [0] ++ blob (writeI64 1700) ++ blob [0] ++
    empty ++ empty ++ empty ++ empty ++ empty ++
    blob (putLittleEndian 4 1 ++ [5]) ++ blob [9]

/-- The row of the parent is used as an index, so no bound on the room makes decoding safe. -/
theorem foreignParent_aborts : ¬∃ factor, ∀ bytes : Bytes, Safe (factor * bytes.length) bytes := by
  rintro ⟨factor, safe⟩
  exact (safe foreignParent).returns (by decide +kernel)

end FrameCatalogCodec

end Valise
