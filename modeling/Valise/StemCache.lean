import Valise.Format
import Valise.Library.Bytes

/-!
The memo table in front of the stemmer: inline tokens of at most 31 bytes, sets of four ways, a
round-robin victim, and a bypass for what does not fit.
-/

namespace Valise

open ByteLists

/-! ### Inline tokens -/

def inlineTokenCap : Nat := 31

structure InlineToken where
  len : UInt8
  bytes : Vector UInt8 inlineTokenCap

namespace InlineToken

def copyIn (slice : Bytes) : Vector UInt8 inlineTokenCap :=
  Vector.ofFn fun place => slice.getD place.val 0

/-- Longer slices do not fit. -/
def new (slice : Bytes) : Option InlineToken :=
  if slice.length > inlineTokenCap then none else some ⟨slice.length.toUInt8, copyIn slice⟩

def empty : InlineToken := ⟨0, Vector.replicate inlineTokenCap 0⟩

def asSlice (token : InlineToken) : Bytes := token.bytes.toList.take token.len.toNat

/-- Only the bytes in front of the length are compared. -/
instance : BEq InlineToken where
  beq left right := left.len == right.len &&
    left.bytes.toList.take left.len.toNat == right.bytes.toList.take right.len.toNat

theorem asSlice_of_beq {left right : InlineToken} (same : (left == right) = true) :
    left.asSlice = right.asSlice := by
  have both : (left.len == right.len) = true ∧ (left.bytes.toList.take left.len.toNat ==
      right.bytes.toList.take right.len.toNat) = true := by
    apply Bool.and_eq_true_iff.mp
    exact same
  exact eq_of_beq both.2

@[simp] theorem empty_asSlice : empty.asSlice = [] := rfl

theorem new_asSlice {slice : Bytes} {token : InlineToken} (made : new slice = some token) :
    token.asSlice = slice := by
  unfold new at made
  split at made
  · cases made
  · rename_i fits
    have short : slice.length ≤ inlineTokenCap := Nat.not_lt.mp fits
    have counted : slice.length.toUInt8.toNat = slice.length := by
      have bound : inlineTokenCap < UInt8.size := by decide
      apply UInt8.toNat_ofNat_of_lt'
      exact Nat.lt_of_le_of_lt short bound
    obtain rfl := Option.some.inj made
    apply List.ext_getElem
    · simp [asSlice, counted, Nat.min_eq_left short]
    · intro place left right
      simp [asSlice, copyIn, right]

end InlineToken

/-! ### The table -/

def cacheSize : Nat := 8192

def ways : Nat := 4

def nSets : Nat := cacheSize / ways

def setMask : Nat := nSets - 1

structure CacheSlot where
  key : InlineToken
  val : InlineToken

def CacheSlot.empty : CacheSlot := ⟨.empty, .empty⟩

structure StemCache where
  slots : Vector CacheSlot cacheSize
  lookups : UInt64
  hits : UInt64
  bypassed : UInt64

/-- What the stemmer returns: its input, or a new string. -/
inductive Cow where
  | owned (text : String)
  | borrowed (text : String)

abbrev Stemmer := String → Cow

def toBytes (text : String) : Bytes := text.toByteArray.data.toList

def fromUtf8 (bytes : Bytes) : Option String := String.fromUTF8? ⟨bytes.toArray⟩

/-- The bytes are trusted to be UTF-8. -/
def fromUtf8Unchecked (bytes : Bytes) : String := (fromUtf8 bytes).getD ""

def saturatingSucc (count : UInt64) : UInt64 := if count.toNat + 1 < 2 ^ 64 then count + 1 else count

namespace StemCache

def new : StemCache := ⟨Vector.replicate cacheSize .empty, 0, 0, 0⟩

def setIdx (hash : UInt64) : Fin nSets :=
  ⟨hash.toNat &&& setMask, Nat.lt_of_le_of_lt Nat.and_le_right (by decide)⟩

def slotAt (set : Fin nSets) (way : Fin ways) : Fin cacheSize :=
  ⟨set.val * ways + way.val, by
    have sets : set.val < 2048 := set.isLt
    have inside : way.val < 4 := way.isLt
    simp only [cacheSize, ways]
    omega⟩

def victimWay (lookups : UInt64) : Fin ways :=
  ⟨lookups.toNat &&& (ways - 1), Nat.lt_of_le_of_lt Nat.and_le_right (by decide)⟩

def stemDirect (folded : Bytes) (stemmer : Stemmer) : Bytes :=
  match stemmer (fromUtf8Unchecked folded) with
  | .owned text => toBytes text
  | .borrowed text => toBytes text

/-- The ways of a set are probed in order. -/
def probe (cache : StemCache) (set : Fin nSets) (key : InlineToken) : Option CacheSlot :=
  ((List.finRange ways).map fun way => cache.slots.get (slotAt set way)).find? fun slot =>
    slot.key == key

def bypass (cache : StemCache) : StemCache :=
  { cache with bypassed := saturatingSucc cache.bypassed }

def hit (cache : StemCache) : StemCache := { cache with hits := saturatingSucc cache.hits }

def write (cache : StemCache) (place : Fin cacheSize) (slot : CacheSlot) : StemCache :=
  { cache with slots := cache.slots.set place.val slot place.isLt }

/-- The stem is counted and looked up; a miss evicts one way of the set. -/
def stemInto (hash : Bytes → UInt64) (cache : StemCache) (folded : Bytes) :
    Option Stemmer → Bytes × StemCache
  | none => (folded, { cache with lookups := saturatingSucc cache.lookups })
  | some stem =>
      let counted := { cache with lookups := saturatingSucc cache.lookups }
      match InlineToken.new folded with
      | none => (stemDirect folded stem, counted.bypass)
      | some key =>
          let set := setIdx (hash folded)
          match counted.probe set key with
          | some slot => (slot.val.asSlice, counted.hit)
          | none =>
              let out := stemDirect folded stem
              match InlineToken.new out with
              | some val => (out, counted.write (slotAt set (victimWay counted.lookups)) ⟨key, val⟩)
              | none => (out, counted.bypass)

/-! ### What the table holds -/

/-- A slot is still empty, or holds the stem of its key. -/
def Memoizes (stem : Stemmer) (slots : Vector CacheSlot cacheSize) : Prop :=
  ∀ place : Fin cacheSize, (slots.get place).key.asSlice = [] ∨
    (slots.get place).val.asSlice = stemDirect (slots.get place).key.asSlice stem

variable {stem : Stemmer}

theorem new_memoizes : Memoizes stem new.slots := by
  intro place
  refine .inl ?_
  have same : new.slots.get place = .empty := by simp [new, Vector.get]
  rw [same]
  exact InlineToken.empty_asSlice

theorem Memoizes.write {cache : StemCache} (memoizes : Memoizes stem cache.slots)
    (place : Fin cacheSize) {folded : Bytes} {key val : InlineToken}
    (keyed : InlineToken.new folded = some key)
    (stemmed : InlineToken.new (stemDirect folded stem) = some val) :
    Memoizes stem (cache.write place ⟨key, val⟩).slots := by
  intro other
  have looked : (cache.write place ⟨key, val⟩).slots.get other =
      if place = other then ⟨key, val⟩ else cache.slots.get other := by
    simp only [Fin.ext_iff]
    exact @Vector.getElem_set _ _ cache.slots _ ⟨key, val⟩ place.isLt _ other.isLt
  rw [looked]
  split
  · rw [InlineToken.new_asSlice keyed, InlineToken.new_asSlice stemmed]
    exact .inr rfl
  · exact memoizes other

theorem probe_some {cache : StemCache} (memoizes : Memoizes stem cache.slots) {set : Fin nSets}
    {folded : Bytes} {key : InlineToken} {slot : CacheSlot} (present : folded ≠ [])
    (keyed : InlineToken.new folded = some key) (found : cache.probe set key = some slot) :
    slot.val.asSlice = stemDirect folded stem := by
  unfold probe at found
  have matched := List.find?_some found
  have same := InlineToken.asSlice_of_beq matched
  rw [InlineToken.new_asSlice keyed] at same
  obtain ⟨way, -, rfl⟩ := List.mem_map.mp (List.mem_of_find?_eq_some found)
  rcases memoizes (slotAt set way) with blank | holds
  · exact absurd (same.symm.trans blank) present
  · rw [holds, same]

/-- A lookup returns what the stemmer would, and leaves the table true. -/
theorem stemInto_memoizes (hash : Bytes → UInt64) {cache : StemCache}
    (memoizes : Memoizes stem cache.slots) {folded : Bytes} (present : folded ≠ []) :
    (cache.stemInto hash folded (some stem)).1 = stemDirect folded stem ∧
      Memoizes stem (cache.stemInto hash folded (some stem)).2.slots := by
  unfold stemInto
  dsimp only
  split
  · exact ⟨rfl, memoizes⟩
  · rename_i key keyed
    split
    · rename_i slot found
      exact ⟨probe_some memoizes present keyed found, memoizes⟩
    · split
      · rename_i val stemmed
        have counted : Memoizes stem
            { cache with lookups := saturatingSucc cache.lookups : StemCache }.slots := memoizes
        exact ⟨rfl, counted.write _ keyed stemmed⟩
      · exact ⟨rfl, memoizes⟩

end StemCache

end Valise
