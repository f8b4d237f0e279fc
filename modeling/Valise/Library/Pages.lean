import Valise.Library.Bytes

/-!
Pages of a fixed length that are written in place: a write is read back where it went, and what
lies apart from it stays as it was.
-/

namespace Pages

open ByteLists

/-- The page with some bytes written from an offset on; what is past its end is not written. -/
def overwrite (page : Bytes) (offset : Nat) (bytes : Bytes) : Bytes :=
  page.mapIdx fun index byte => if offset ≤ index then bytes.getD (index - offset) byte else byte

@[simp] theorem length_overwrite (page : Bytes) (offset : Nat) (bytes : Bytes) :
    (overwrite page offset bytes).length = page.length := List.length_mapIdx

/-- Two ranges of a page that share no byte. -/
def Apart (offset width other otherWidth : Nat) : Prop :=
  offset + width ≤ other ∨ other + otherWidth ≤ offset

instance (offset width other otherWidth : Nat) : Decidable (Apart offset width other otherWidth) :=
  inferInstanceAs (Decidable (_ ∨ _))

theorem getElem?_slice (page : Bytes) (offset width index : Nat) :
    (slice page offset width)[index]? = if index < width then page[offset + index]? else none := by
  rw [slice, List.getElem?_take, List.getElem?_drop]

theorem getElem?_overwrite (page : Bytes) (offset : Nat) (bytes : Bytes) (index : Nat) :
    (overwrite page offset bytes)[index]? = page[index]?.map fun byte =>
      if offset ≤ index then bytes.getD (index - offset) byte else byte := by
  rw [overwrite, List.getElem?_mapIdx]

theorem slice_apart {page : Bytes} {offset : Nat} {bytes : Bytes} {other width : Nat}
    (apart : Apart offset bytes.length other width) :
    slice (overwrite page offset bytes) other width = slice page other width := by
  refine List.ext_getElem? fun index => ?_
  rw [getElem?_slice, getElem?_slice, getElem?_overwrite]
  split
  · rename_i inside
    have untouched : ∀ byte, (if offset ≤ other + index then
        bytes.getD (other + index - offset) byte else byte) = byte := by
      intro byte
      split
      · rw [List.getD_eq_default]
        rcases apart with before | after <;> omega
      · rfl
    simp only [untouched, Option.map_id']
  · rfl

theorem slice_inside {page : Bytes} {offset : Nat} {bytes : Bytes} {start width : Nat}
    (fits : offset + bytes.length ≤ page.length) (inside : start + width ≤ bytes.length) :
    slice (overwrite page offset bytes) (offset + start) width = slice bytes start width := by
  refine List.ext_getElem? fun index => ?_
  rw [getElem?_slice, getElem?_slice, getElem?_overwrite]
  split
  · rename_i there
    have written : offset + start + index - offset = start + index := by omega
    rw [List.getElem?_eq_getElem (by omega), Option.map_some, if_pos (by omega), written,
      List.getD_eq_getElem _ _ (by omega), List.getElem?_eq_getElem (by omega)]
  · rfl

theorem slice_overwrite {page : Bytes} {offset : Nat} {bytes : Bytes}
    (fits : offset + bytes.length ≤ page.length) :
    slice (overwrite page offset bytes) offset bytes.length = bytes := by
  have whole := @slice_inside page offset bytes 0 bytes.length fits (by omega)
  rw [Nat.add_zero] at whole
  rw [whole, slice, List.drop_zero, List.take_length]

/-! ### Several writes -/

def writeAll (page : Bytes) (writes : List (Nat × Bytes)) : Bytes :=
  writes.foldl (fun page write => overwrite page write.1 write.2) page

@[simp] theorem length_writeAll (page : Bytes) (writes : List (Nat × Bytes)) :
    (writeAll page writes).length = page.length := by
  induction writes generalizing page with
  | nil => rfl
  | cons write rest ih => exact (ih _).trans (length_overwrite page write.1 write.2)

theorem slice_writeAll_apart {page : Bytes} {writes : List (Nat × Bytes)} {other width : Nat}
    (apart : ∀ write ∈ writes, Apart write.1 write.2.length other width) :
    slice (writeAll page writes) other width = slice page other width := by
  induction writes generalizing page with
  | nil => rfl
  | cons write rest ih =>
      have later : slice (writeAll (overwrite page write.1 write.2) rest) other width =
          slice (overwrite page write.1 write.2) other width :=
        ih fun other listed => apart other (List.mem_cons_of_mem _ listed)
      exact later.trans (slice_apart (apart write List.mem_cons_self))

/-- Writes that share no byte are all read back. -/
theorem slice_writeAll {page : Bytes} {writes : List (Nat × Bytes)}
    (apart : writes.Pairwise fun first later =>
      Apart later.1 later.2.length first.1 first.2.length)
    (fits : ∀ write ∈ writes, write.1 + write.2.length ≤ page.length) {write : Nat × Bytes}
    (listed : write ∈ writes) :
    slice (writeAll page writes) write.1 write.2.length = write.2 := by
  induction writes generalizing page with
  | nil => cases listed
  | cons first rest ih =>
      obtain ⟨after, others⟩ := List.pairwise_cons.mp apart
      rcases List.mem_cons.mp listed with rfl | later
      · exact (slice_writeAll_apart after).trans (slice_overwrite (fits write List.mem_cons_self))
      · have inside : ∀ write ∈ rest,
            write.1 + write.2.length ≤ (overwrite page first.1 first.2).length := by
          intro other member
          rw [length_overwrite]
          exact fits other (List.mem_cons_of_mem _ member)
        exact ih others inside later

theorem slice_split (page : Bytes) (offset first second : Nat) :
    slice page offset (first + second) =
      slice page offset first ++ slice page (offset + first) second := by
  rw [slice, slice, slice, List.take_add, List.drop_drop]

end Pages
