import Valise.StoreEngine

/-!
Keys and the identity index: which frame and vectors a key of a collection resolves to, and how the
index is rebuilt from the uris of an opened file.
-/

namespace Valise

open ByteLists

def utf8 (text : String) : Bytes := text.toUTF8.data.toList

def ofUtf8 (bytes : Bytes) : Option String := String.fromUTF8? ⟨bytes.toArray⟩

@[simp] theorem ofUtf8_utf8 (text : String) : ofUtf8 (utf8 text) = some text := by
  have valid : (ByteArray.mk (utf8 text).toArray).IsValidUTF8 := text.isValidUTF8
  unfold ofUtf8 String.fromUTF8?
  rw [dif_pos valid]
  rfl

inductive Key where
  | str (text : String)
  | u64 (number : UInt64)
  | raw (content : Bytes)
deriving DecidableEq

namespace Key

def tagStr : UInt8 := 1
def tagU64 : UInt8 := 2
def tagBytes : UInt8 := 3

def encode : Key → Bytes
  | .str text => tagStr :: utf8 text
  | .u64 number => tagU64 :: putLittleEndian 8 number.toNat
  | .raw content => tagBytes :: content

def decode : Bytes → Option Key
  | [] => none
  | tag :: rest =>
      if tag = tagStr then (ofUtf8 rest).map .str
      else if tag = tagU64 then
        if rest.length = 8 then some (.u64 (UInt64.ofNat (getLittleEndian rest))) else none
      else if tag = tagBytes then some (.raw rest)
      else none

theorem decode_encode (key : Key) : decode key.encode = some key := by
  cases key with
  | str text => simp [encode, decode]
  | u64 number =>
      have fits : number.toNat < 256 ^ 8 := number.toNat_lt
      simp [encode, decode, tagStr, tagU64, getLittleEndian_put 8 _ fits]
  | raw content => simp [encode, decode, tagStr, tagU64, tagBytes]

theorem utf8_of_ofUtf8 {bytes : Bytes} {text : String} (read : ofUtf8 bytes = some text) :
    utf8 text = bytes := by
  unfold ofUtf8 String.fromUTF8? at read
  split at read
  · cases read
    simp [utf8, String.fromUTF8, String.toUTF8]
  · cases read

theorem encode_of_decode {bytes : Bytes} {key : Key} (decoded : decode bytes = some key) :
    key.encode = bytes := by
  cases bytes with
  | nil => cases decoded
  | cons tag rest =>
    simp only [decode] at decoded
    split at decoded
    · rename_i str
      obtain ⟨text, read, rfl⟩ := Option.map_eq_some_iff.mp decoded
      rw [encode, utf8_of_ofUtf8 read, str]
    · split at decoded
      · rename_i _ number
        split at decoded
        · rename_i eight
          cases decoded
          have fits : getLittleEndian rest < 2 ^ 64 := by
            have bound := getLittleEndian_lt rest
            rwa [eight] at bound
          rw [encode, UInt64.toNat_ofNat_of_lt' fits, ← eight, putLittleEndian_get, number]
        · cases decoded
      · split at decoded
        · rename_i raw
          cases decoded
          rw [encode, raw]
        · cases decoded

theorem encode_inj {first second : Key} : first.encode = second.encode ↔ first = second := by
  constructor
  · intro same
    have decoded : some first = some second := by
      rw [← decode_encode, same, decode_encode]
    exact Option.some.inj decoded
  · exact congrArg encode

end Key

/-- The ids a key resolves to: its frame, and its vectors with the space of each. -/
structure Entry where
  frameId : Nat
  vectors : List (Nat × Nat)
  committed : Bool
deriving DecidableEq, Repr

abbrev RecordId := Nat × Bytes

structure IdentityIndex where
  map : AList fun _ : RecordId => Entry := ∅
  uncommitted : List RecordId := []

namespace IdentityIndex

def get (identity : IdentityIndex) (collectionId : Nat) (key : Bytes) : Option Entry :=
  identity.map.lookup (collectionId, key)

def committedKeys (identity : IdentityIndex) (collectionId : Nat) : List Bytes :=
  identity.map.entries.filterMap fun item =>
    if item.1.1 = collectionId ∧ item.2.committed then some item.1.2 else none

def insert (identity : IdentityIndex) (collectionId : Nat) (key : Bytes) (entry : Entry) :
    IdentityIndex where
  map := identity.map.insert (collectionId, key) entry
  uncommitted := if entry.committed then identity.uncommitted
    else identity.uncommitted ++ [(collectionId, key)]

def remove (identity : IdentityIndex) (collectionId : Nat) (key : Bytes) : IdentityIndex :=
  { identity with map := identity.map.erase (collectionId, key) }

/-- Change the entry of a key, if there is one. -/
def adjust (identity : IdentityIndex) (id : RecordId) (change : Entry → Entry) : IdentityIndex :=
  match identity.map.lookup id with
  | none => identity
  | some entry => { identity with map := identity.map.insert id (change entry) }

def pushVector (identity : IdentityIndex) (collectionId : Nat) (key : Bytes)
    (spaceId vectorId : Nat) : IdentityIndex :=
  identity.adjust (collectionId, key) fun entry =>
    { entry with vectors := entry.vectors ++ [(spaceId, vectorId)] }

def markCommitted (identity : IdentityIndex) (id : RecordId) : IdentityIndex :=
  identity.adjust id fun entry => { entry with committed := true }

def markAllCommitted (identity : IdentityIndex) : IdentityIndex :=
  { identity.uncommitted.foldl markCommitted identity with uncommitted := [] }

section Rebuild

variable {κ : Type}

/-- The record of an active frame whose uri is a key. -/
def keyed (engine : StoreEngine κ) (frameId : Nat) : Option RecordId := do
  let row ← engine.tables.frames[frameId]?
  if row.active then
    let uri ← engine.readFrameUri frameId
    let _ ← Key.decode uri
    return (row.collectionId, uri)
  else none

def addFrame (engine : StoreEngine κ) (identity : IdentityIndex) (frameId : Nat) : IdentityIndex :=
  match keyed engine frameId with
  | none => identity
  | some id => identity.insert id.1 id.2 ⟨frameId, [], true⟩

/-- An active vector of the space goes to the entry of its owner's key. -/
def addVector (engine : StoreEngine κ) (spaceId : Nat) (identity : IdentityIndex)
    (vectorId : Nat) : IdentityIndex :=
  match engine.tables.vectors[vectorId]? with
  | none => identity
  | some row =>
      if row.active ∧ row.spaceId = spaceId then
        match keyed engine row.owner with
        | none => identity
        | some id => identity.pushVector id.1 id.2 spaceId vectorId
      else identity

/-- Frames first, in their order, then the vectors of each space. -/
def rebuild (engine : StoreEngine κ) : IdentityIndex :=
  let frames := (List.range engine.tables.frames.length).foldl (addFrame engine) {}
  (List.range engine.tables.spaces.length).foldl (fun identity spaceId =>
    (List.range engine.tables.vectors.length).foldl (addVector engine spaceId) identity) frames

end Rebuild

/-! ### Lookups -/

def entryAt (identity : IdentityIndex) (id : RecordId) : Option Entry := identity.map.lookup id

@[simp] theorem entryAt_empty (id : RecordId) : ({} : IdentityIndex).entryAt id = none := rfl

theorem get_eq (identity : IdentityIndex) (collectionId : Nat) (key : Bytes) :
    identity.get collectionId key = identity.entryAt (collectionId, key) := rfl

theorem entryAt_insert (identity : IdentityIndex) (collectionId : Nat) (key : Bytes) (entry : Entry)
    (id : RecordId) : (identity.insert collectionId key entry).entryAt id =
      if id = (collectionId, key) then some entry else identity.entryAt id := by
  by_cases same : id = (collectionId, key)
  · rw [if_pos same, same]
    exact AList.lookup_insert _
  · rw [if_neg same]
    exact AList.lookup_insert_ne same

theorem entryAt_remove (identity : IdentityIndex) (collectionId : Nat) (key : Bytes)
    (id : RecordId) : (identity.remove collectionId key).entryAt id =
      if id = (collectionId, key) then none else identity.entryAt id := by
  by_cases same : id = (collectionId, key)
  · rw [if_pos same, same]
    exact AList.lookup_erase _ _
  · rw [if_neg same]
    exact AList.lookup_erase_ne same

theorem entryAt_adjust (identity : IdentityIndex) (id other : RecordId) (change : Entry → Entry) :
    (identity.adjust id change).entryAt other =
      if other = id then (identity.entryAt other).map change else identity.entryAt other := by
  unfold adjust entryAt
  cases found : identity.map.lookup id with
  | none =>
    by_cases same : other = id
    · rw [if_pos same, same, found]
      rfl
    · rw [if_neg same]
  | some entry =>
    by_cases same : other = id
    · rw [if_pos same, same, found]
      exact AList.lookup_insert _
    · rw [if_neg same]
      exact AList.lookup_insert_ne same

theorem entryAt_markCommitted (identity : IdentityIndex) (ids : List RecordId) (id : RecordId) :
    (ids.foldl markCommitted identity).entryAt id = (identity.entryAt id).map fun entry =>
      if id ∈ ids then { entry with committed := true } else entry := by
  induction ids generalizing identity with
  | nil => simp
  | cons first rest ih =>
    rw [List.foldl_cons, ih, markCommitted, entryAt_adjust]
    by_cases same : id = first
    · cases identity.entryAt id <;> simp [same]
    · cases identity.entryAt id <;> simp [same]

theorem entryAt_markAllCommitted (identity : IdentityIndex) (id : RecordId) :
    identity.markAllCommitted.entryAt id = (identity.entryAt id).map fun entry =>
      if id ∈ identity.uncommitted then { entry with committed := true } else entry :=
  entryAt_markCommitted identity identity.uncommitted id

theorem mem_committedKeys {identity : IdentityIndex} {collectionId : Nat} {key : Bytes} :
    key ∈ identity.committedKeys collectionId ↔
      ∃ entry, identity.entryAt (collectionId, key) = some entry ∧ entry.committed = true := by
  unfold committedKeys entryAt
  rw [List.mem_filterMap]
  constructor
  · rintro ⟨⟨⟨collection, bytes⟩, entry⟩, member, chosen⟩
    obtain ⟨⟨rfl, committed⟩, same⟩ := Option.ite_none_right_eq_some.mp chosen
    obtain rfl := Option.some.inj same
    exact ⟨entry, AList.mem_lookup_iff.mpr member, committed⟩
  · rintro ⟨entry, found, committed⟩
    exact ⟨⟨(collectionId, key), entry⟩, AList.mem_lookup_iff.mp found, if_pos ⟨rfl, committed⟩⟩

theorem committedKeys_nodup (identity : IdentityIndex) (collectionId : Nat) :
    (identity.committedKeys collectionId).Nodup := by
  refine List.Pairwise.filterMap _ ?_ (List.nodupKeys_iff_pairwise.mp identity.map.nodupKeys)
  rintro ⟨⟨collection, bytes⟩, entry⟩ ⟨⟨collection', bytes'⟩, entry'⟩ different first one second two
  obtain ⟨⟨inside, _⟩, chosen⟩ := Option.ite_none_right_eq_some.mp one
  obtain ⟨⟨inside', _⟩, chosen'⟩ := Option.ite_none_right_eq_some.mp two
  intro same
  refine different (Prod.ext (inside.trans inside'.symm) ?_)
  exact Option.some.inj (chosen.trans ((congrArg some same).trans chosen'.symm))

end IdentityIndex

end Valise
