import Valise.FieldOrder

/-!
Compaction of a store: the active rows are entered again into a fresh file, which takes the place of
the old one. Spaces, text spaces and collections are registered again in their order, and so they
keep the ids that they had.
-/

namespace Valise

open ByteLists Commands Command Outcomes Writer

def recalibrateSample : Nat := 50000

namespace StoreEngine

variable {κ : Type}

def framesToCopy (src : StoreEngine κ) : List Nat :=
  (List.range src.tables.frames.length).filter src.tables.activeFrame

def activeVectors (src : StoreEngine κ) (spaceId : Nat) : List Nat :=
  (List.range src.tables.vectors.length).filter fun vectorId =>
    src.tables.vectors[vectorId]?.any fun row => row.active && row.spaceId = spaceId

/-- Frames or vectors are tombstoned. -/
def tombstones (src : StoreEngine κ) : Bool :=
  src.tables.frames.any (!·.active) || src.tables.vectors.any (!·.active)

section Build

variable (lossy : κ → List F32 → List F32) (refit : Nat → κ → List (List F32) → Result κ)
  (recalibrate : Bool) (textSpaceOf : Nat → Option Nat) (src : StoreEngine κ)

def readAll : List Nat → Result (List (List F32))
  | [] => return []
  | vectorId :: rest => do
      let values ← src.readVector lossy vectorId
      let others ← readAll rest
      return values :: others

/-- A codec is fitted again, in its family and at its operating point, when there is something to
fit it to. -/
def compactCodec (space : SpaceRow) (spaceId : Nat) : Result κ := do
  let params ← required s!"codec_params: unknown codec {space.codecId}"
    src.tables.codecs[space.codecId]?
  let sample ← src.readAll lossy
    (if recalibrate then (src.activeVectors spaceId).take recalibrateSample else [])
  if sample = [] then return params else refit space.dim params sample

def compactSpace (item : SpaceRow × Nat) : Call κ Unit := do
  let codec ← lift (src.compactCodec lossy refit recalibrate item.1 item.2)
  let codecId ← registerCodec codec
  let _ ← registerSpace item.1.model item.1.dim codecId
  return ()

/-- A text is indexed again where its collection has a text space. -/
def compactText (collectionId frameId : Nat) (payload : Bytes) : Call κ Unit :=
  if payload = [] then return ()
  else
    match textSpaceOf collectionId with
    | none => return ()
    | some textSpaceId => indexFrameText frameId textSpaceId

/-- A frame that waits in the buffers has no payload and no key to copy. A parent that is gone is
left out. -/
def compactFrame (frameMap : List (Nat × Nat)) (frameId : Nat) : Call κ (List (Nat × Nat)) :=
  match src.tables.frames[frameId]? with
  | none => return frameMap
  | some row => do
      let payload := if frameId ∈ src.unflushed then [] else row.payload
      let newId ← putFrame { row with
        uri := src.readFrameUri frameId
        payload := payload
        parent := row.parent.bind fun parent => frameMap.lookup parent }
      compactText textSpaceOf row.collectionId newId payload
      return frameMap ++ [(frameId, newId)]

/-- Vectors are decoded and encoded again. -/
def compactVector (frameMap : List (Nat × Nat)) (item : Nat × Nat) : Call κ Unit :=
  match src.tables.vectors[item.2]?.bind fun row => frameMap.lookup row.owner with
  | none => return ()
  | some owner => do
      let values ← lift (src.readVector lossy item.2)
      let _ ← putVector owner item.1 values
      return ()

def vectorsToCopy : List (Nat × Nat) :=
  (List.range src.tables.spaces.length).flatMap fun spaceId =>
    (src.activeVectors spaceId).map (spaceId, ·)

def buildCompactedFile : Call κ Unit := do
  forEach src.tables.spaces.zipIdx (compactSpace lossy refit recalibrate src)
  let frameMap ← foldEach src.framesToCopy [] (compactFrame textSpaceOf src)
  forEach src.vectorsToCopy (compactVector lossy src frameMap)
  commit

end Build

end StoreEngine

/-! ### What is copied -/

section Copies

variable {κ : Type} {lossy : κ → List F32 → List F32}
  {refit : Nat → κ → List (List F32) → Result κ} {recalibrate : Bool}
  {textSpaceOf : Nat → Option Nat} {src engine final : StoreEngine κ}

open StoreEngine

structure CopiesFrame (src : StoreEngine κ) (frameId : Nat) (row : FrameRow) : Prop where
  copied : ∃ old, src.tables.frames[frameId]? = some old ∧ row.active = old.active ∧
    row.collectionId = old.collectionId ∧ row.createdAt = old.createdAt ∧
    row.uri = src.readFrameUri frameId ∧
    row.payload = (if frameId ∈ src.unflushed then [] else old.payload)

structure CopiesVector (lossy : κ → List F32 → List F32) (src : StoreEngine κ)
    (frameMap : List (Nat × Nat)) (item : Nat × Nat) (row : VectorRow) : Prop where
  kept : row.active = true ∧ row.stored = true ∧ row.spaceId = item.1
  copied : ∃ old codec, src.tables.vectors[item.2]? = some old ∧
    frameMap.lookup old.owner = some row.owner ∧ row.values = lossy codec old.values

theorem compactSpaces_ok {items : List (SpaceRow × Nat)} {value : Unit}
    (coded : ∀ row ∈ engine.tables.spaces, row.codecId < engine.tables.codecs.length)
    (done : forEach items (compactSpace lossy refit recalibrate src) engine = (.ok value, final)) :
    ∃ codecs added, final.tables = { engine.tables with
        codecs, spaces := engine.tables.spaces ++ added } ∧
      added.map (·.model) = items.map (·.1.model) ∧
      ∀ row ∈ engine.tables.spaces ++ added, row.codecId < codecs.length := by
  induction items generalizing engine with
  | nil =>
      obtain ⟨_, rfl⟩ := pure_eq_ok.mp done
      exact ⟨engine.tables.codecs, [], by simp, rfl, by simpa using coded⟩
  | cons item rest ih =>
      obtain ⟨_, middle, first, others⟩ := bind_eq_ok.mp done
      simp only [compactSpace, bind_eq_ok, lift_eq_ok, pure_eq_ok] at first
      obtain ⟨codec, _, ⟨_, rfl⟩, codecId, _, codecDone, spaceId, _, spaceDone, _, rfl⟩ := first
      obtain ⟨rfl, rfl⟩ := registerCodec_ok codecDone
      obtain ⟨rfl, rfl⟩ := registerSpace_ok spaceDone
      obtain ⟨codecs, added, tables, models, within⟩ := ih (by
        intro row member
        dsimp only at member ⊢
        rw [List.length_append, List.length_singleton]
        rcases List.mem_append.mp member with old | new
        · exact (coded row old).trans (Nat.lt_succ_self _)
        · rw [List.mem_singleton.mp new]
          exact Nat.lt_succ_self _) others
      refine ⟨codecs, ⟨item.1.model, item.1.dim, engine.tables.codecs.length⟩ :: added, ?_, ?_, ?_⟩
      · simpa using tables
      · rw [List.map_cons, List.map_cons, models]
      · simpa using within

theorem compactText_ok {collectionId frameId : Nat} {payload : Bytes} {value : Unit}
    (done : compactText textSpaceOf collectionId frameId payload engine = (.ok value, final)) :
    ∃ postings, final.tables = { engine.tables with postings } := by
  unfold compactText at done
  split at done
  · obtain ⟨_, rfl⟩ := pure_eq_ok.mp done
    exact ⟨_, rfl⟩
  · cases bound : textSpaceOf collectionId with
    | none =>
        rw [bound] at done
        obtain ⟨_, rfl⟩ := pure_eq_ok.mp done
        exact ⟨_, rfl⟩
    | some textSpaceId =>
        rw [bound] at done
        obtain rfl := indexFrameText_ok done
        exact ⟨_, rfl⟩

theorem compactFrames_ok {frameIds : List Nat} {known frameMap : List (Nat × Nat)}
    (there : ∀ frameId ∈ frameIds, (src.tables.frames[frameId]?).isSome = true)
    (done : foldEach frameIds known (compactFrame textSpaceOf src) engine = (.ok frameMap, final)) :
    ∃ rows postings, final.tables = { engine.tables with
        frames := engine.tables.frames ++ rows, postings } ∧
      frameMap = known ++ frameIds.zipIdx engine.tables.frames.length ∧
      List.Forall₂ (CopiesFrame src) frameIds rows := by
  induction frameIds generalizing engine known with
  | nil =>
      obtain ⟨rfl, rfl⟩ := pure_eq_ok.mp done
      exact ⟨[], engine.tables.postings, by simp, by simp, .nil⟩
  | cons frameId rest ih =>
      obtain ⟨first, others⟩ := List.forall_mem_cons.mp there
      obtain ⟨old, found⟩ := Option.isSome_iff_exists.mp first
      obtain ⟨extended, middle, copied, remaining⟩ := bind_eq_ok.mp done
      unfold compactFrame at copied
      simp only [found, bind_eq_ok, pure_eq_ok] at copied
      obtain ⟨newId, entered, put, _, _, text, rfl, rfl⟩ := copied
      obtain ⟨rfl, _, left⟩ := putFrame_ok put
      obtain ⟨postings, indexed⟩ := compactText_ok text
      rw [left.tables] at indexed
      obtain ⟨rows, posted, tables, rfl, copies⟩ := ih others remaining
      rw [indexed] at tables
      refine ⟨{ old with
          uri := src.readFrameUri frameId
          payload := if frameId ∈ src.unflushed then [] else old.payload
          parent := old.parent.bind fun parent => known.lookup parent } :: rows, posted, ?_, ?_,
        .cons ⟨old, found, rfl, rfl, rfl, rfl, rfl⟩ copies⟩
      · rw [tables]
        simp
      · rw [indexed]
        simp [List.zipIdx_cons]

theorem compactVectors_ok {frameMap items : List (Nat × Nat)} {value : Unit}
    (owned : ∀ item ∈ items, ∃ old owner, src.tables.vectors[item.2]? = some old ∧
      frameMap.lookup old.owner = some owner)
    (done : forEach items (compactVector lossy src frameMap) engine = (.ok value, final)) :
    ∃ rows, final.tables = { engine.tables with vectors := engine.tables.vectors ++ rows } ∧
      List.Forall₂ (CopiesVector lossy src frameMap) items rows := by
  induction items generalizing engine with
  | nil =>
      obtain ⟨_, rfl⟩ := pure_eq_ok.mp done
      exact ⟨[], by simp, .nil⟩
  | cons item rest ih =>
      obtain ⟨first, others⟩ := List.forall_mem_cons.mp owned
      obtain ⟨old, owner, found, mapped⟩ := first
      obtain ⟨_, middle, copied, remaining⟩ := bind_eq_ok.mp done
      unfold compactVector at copied
      simp only [found, Option.bind_some, mapped, bind_eq_ok, lift_eq_ok, pure_eq_ok] at copied
      obtain ⟨values, _, ⟨read, rfl⟩, vectorId, _, put, _, rfl⟩ := copied
      obtain ⟨_, rfl, rfl⟩ := putVector_ok put
      obtain ⟨rows, tables, copies⟩ := ih others remaining
      have decoded : ∃ codec, values = lossy codec old.values := by
        simp only [StoreEngine.readVector, found, Outcome.bind_eq_ok] at read
        obtain ⟨_, _, _, _, _, _, decoded⟩ := read
        split at decoded
        · cases decoded
        · rename_i codec _
          cases decoded
          exact ⟨codec, rfl⟩
      obtain ⟨codec, rfl⟩ := decoded
      refine ⟨{ owner, spaceId := item.1, values := lossy codec old.values } :: rows, ?_,
        .cons ⟨⟨rfl, rfl, rfl⟩, old, codec, found, mapped, rfl⟩ copies⟩
      rw [tables]
      simp

/-! ### What is copied is held -/

theorem related_place {α β : Type} {relates : α → β → Prop} {first : List α} {second : List β}
    (related : List.Forall₂ relates first second) {place : Nat} {value : α}
    (found : first[place]? = some value) : ∃ other, second[place]? = some other ∧
      relates value other := by
  induction related generalizing place with
  | nil => cases found
  | cons one _ ih =>
      cases place with
      | zero =>
          obtain rfl := Option.some.inj found
          exact ⟨_, rfl, one⟩
      | succ place => exact ih found

theorem related_mem {α β : Type} {relates onward : α → β → Prop} {first : List α} {second : List β}
    (related : List.Forall₂ relates first second)
    (carries : ∀ value ∈ first, ∀ other, relates value other → onward value other) :
    List.Forall₂ onward first second := by
  induction related with
  | nil => exact .nil
  | cons one _ ih =>
      obtain ⟨here, later⟩ := List.forall_mem_cons.mp carries
      exact .cons (here _ one) (ih later)

theorem lookup_zipIdx (items : List Nat) {value : Nat} (member : value ∈ items) (base : Nat) :
    (items.zipIdx base).lookup value = some (base + items.idxOf value) := by
  induction items generalizing base with
  | nil => cases member
  | cons item rest ih =>
      rw [List.zipIdx_cons, List.lookup_cons, List.idxOf_cons]
      by_cases same : value = item
      · simp [same]
      · have other : value ∈ rest := (List.mem_cons.mp member).resolve_left same
        have different : (value == item) = false := beq_false_of_ne same
        have apart : (item == value) = false := beq_false_of_ne (Ne.symm same)
        rw [different, apart, ih other, cond_false]
        exact congrArg some (by omega)

theorem mem_framesToCopy {frameId : Nat} : frameId ∈ src.framesToCopy ↔
    ∃ row, src.tables.frames[frameId]? = some row ∧ row.active = true := by
  unfold framesToCopy StoreTables.activeFrame
  rw [List.mem_filter, List.mem_range, Option.any_eq_true]
  exact ⟨fun ⟨_, row, found, active⟩ => ⟨row, found, active⟩,
    fun ⟨row, found, active⟩ => ⟨(List.getElem?_eq_some_iff.mp found).1, row, found, active⟩⟩

theorem mem_vectorsToCopy {item : Nat × Nat} : item ∈ src.vectorsToCopy ↔
    item.1 < src.tables.spaces.length ∧ ∃ row, src.tables.vectors[item.2]? = some row ∧
      row.active = true ∧ row.spaceId = item.1 := by
  unfold vectorsToCopy activeVectors
  simp only [List.mem_flatMap, List.mem_range, List.mem_map, List.mem_filter, Option.any_eq_true,
    Bool.and_eq_true, decide_eq_true_eq]
  constructor
  · rintro ⟨spaceId, inside, vectorId, ⟨_, row, found, active, space⟩, rfl⟩
    exact ⟨inside, row, found, active, space⟩
  · rintro ⟨inside, row, found, active, space⟩
    exact ⟨item.1, inside, item.2, ⟨(List.getElem?_eq_some_iff.mp found).1, row, found, active,
      space⟩, rfl⟩

theorem framesToCopy_nodup (src : StoreEngine κ) : src.framesToCopy.Nodup :=
  List.nodup_range.filter _

theorem vectorsToCopy_nodup (src : StoreEngine κ) : src.vectorsToCopy.Nodup := by
  refine List.nodup_flatMap.mpr ⟨fun spaceId _ => ?_, ?_⟩
  · refine (List.nodup_range.filter _).map ?_
    intro first second same
    exact congrArg Prod.snd same
  · refine List.nodup_range.imp fun apart => ?_
    intro item one two
    obtain ⟨_, _, rfl⟩ := List.mem_map.mp one
    obtain ⟨_, _, same⟩ := List.mem_map.mp two
    exact apart (congrArg Prod.fst same).symm

/-- The rows of the file that a compaction built. -/
structure Compacted (lossy : κ → List F32 → List F32) (src : StoreEngine κ)
    (tables : StoreTables κ) : Prop where
  spaces : tables.spaces.map (·.model) = src.tables.spaces.map (·.model)
  coded : ∀ row ∈ tables.spaces, row.codecId < tables.codecs.length
  frames : List.Forall₂ (CopiesFrame src) src.framesToCopy tables.frames
  vectors : List.Forall₂ (CopiesVector lossy src src.framesToCopy.zipIdx) src.vectorsToCopy
    tables.vectors

theorem buildCompactedFile_ok {entries : RecordId → Option Entry}
    (mirrors : MirrorsRows src.tables entries) {faults : StorePoint → Bool} {value : Unit}
    (done : buildCompactedFile lossy refit recalibrate textSpaceOf src { faults } =
      (.ok value, final)) : Compacted lossy src final.reopen.tables := by
  unfold buildCompactedFile at done
  obtain ⟨_, registered, spacesDone, rest⟩ := bind_eq_ok.mp done
  obtain ⟨frameMap, entered, framesDone, rest⟩ := bind_eq_ok.mp rest
  obtain ⟨_, copied, vectorsDone, committed⟩ := bind_eq_ok.mp rest
  obtain ⟨codecs, added, spaces, models, coded⟩ := compactSpaces_ok
    (fun _ member => absurd member List.not_mem_nil) spacesDone
  obtain ⟨rows, postings, frames, rfl, copies⟩ := compactFrames_ok (fun frameId member => by
    obtain ⟨row, found, _⟩ := mem_framesToCopy.mp member
    rw [found]
    rfl) framesDone
  have start : registered.tables.frames.length = 0 := by
    rw [spaces]
    rfl
  rw [start, List.nil_append] at vectorsDone
  obtain ⟨vectors, tables, held⟩ := compactVectors_ok (fun item member => by
    obtain ⟨_, row, found, active, _⟩ := mem_vectorsToCopy.mp member
    obtain ⟨id, entry, there, same⟩ := mirrors.owned item.2 row found active
    obtain ⟨frame, inTable, on, _⟩ := (mirrors.frame id entry there).1
    have owner := mem_framesToCopy.mpr ⟨frame, inTable, on⟩
    exact ⟨row, _, found, lookup_zipIdx _ (same ▸ owner) 0⟩) vectorsDone
  have final : final.reopen.tables = copied.tables := (commit_ok committed).durable
  rw [final, tables, frames, spaces]
  refine ⟨?_, ?_, ?_, ?_⟩
  · have all : (([] : List SpaceRow) ++ added).map (·.model) =
        src.tables.spaces.zipIdx.map (·.1.model) := models
    rw [List.nil_append] at all
    have rows : src.tables.spaces.zipIdx.map (·.1.model) =
        (src.tables.spaces.zipIdx.map Prod.fst).map (·.model) := List.map_map.symm
    rw [rows, List.zipIdx_map_fst] at all
    exact all
  · exact coded
  · exact copies
  · exact held

/-- An entry of the compacted file. -/
def copiedEntry (src : StoreEngine κ) (entry : Entry) : Entry where
  frameId := src.framesToCopy.idxOf entry.frameId
  vectors := entry.vectors.map fun item => (item.1, src.vectorsToCopy.idxOf item)
  committed := true

variable {tables : StoreTables κ} {entries : RecordId → Option Entry}

/-- A copy of an active frame is at its place among them. -/
theorem Compacted.frame (compacted : Compacted lossy src tables) {frameId : Nat}
    (member : frameId ∈ src.framesToCopy) :
    ∃ row, tables.frames[src.framesToCopy.idxOf frameId]? = some row ∧
      CopiesFrame src frameId row :=
  related_place compacted.frames (List.getElem?_idxOf member)

theorem Compacted.vector (compacted : Compacted lossy src tables) {item : Nat × Nat}
    (member : item ∈ src.vectorsToCopy) :
    ∃ row, tables.vectors[src.vectorsToCopy.idxOf item]? = some row ∧
      CopiesVector lossy src src.framesToCopy.zipIdx item row :=
  related_place compacted.vectors (List.getElem?_idxOf member)

theorem place_of_nodup {α : Type} [BEq α] [LawfulBEq α] {items : List α} (nodup : items.Nodup)
    {place : Nat} {value : α} (found : items[place]? = some value) : items.idxOf value = place := by
  have member : value ∈ items := List.mem_of_getElem? found
  refine (List.getElem?_inj (List.idxOf_lt_length_of_mem member) nodup).mp ?_
  rw [List.getElem?_idxOf member, found]

theorem MirrorsRows.to_copy (mirrors : MirrorsRows src.tables entries) {id : RecordId}
    {entry : Entry} (found : entries id = some entry) {item : Nat × Nat}
    (member : item ∈ entry.vectors) : item ∈ src.vectorsToCopy := by
  obtain ⟨row, there, active, _, space⟩ := ((mirrors.vectors id entry found).2 item).mp member
  exact mem_vectorsToCopy.mpr ⟨space ▸ (mirrors.spaced _ row there).1, row, there, active, space⟩

theorem MirrorsRows.active (mirrors : MirrorsRows src.tables entries) {id : RecordId}
    {entry : Entry} (found : entries id = some entry) : entry.frameId ∈ src.framesToCopy := by
  obtain ⟨row, there, active, _⟩ := (mirrors.frame id entry found).1
  exact mem_framesToCopy.mpr ⟨row, there, active⟩

theorem Compacted.mirrors (compacted : Compacted lossy src tables)
    (mirrors : MirrorsRows src.tables entries) (flushed : src.unflushed = []) :
    MirrorsRows tables fun id => (entries id).map (copiedEntry src) := by
  -- The row that a copy was made of, and the entry that has it.
  have source {place : Nat} {row : VectorRow} (found : tables.vectors[place]? = some row) :
      ∃ item old id entry, src.vectorsToCopy[place]? = some item ∧
        CopiesVector lossy src src.framesToCopy.zipIdx item row ∧
        src.tables.vectors[item.2]? = some old ∧ old.spaceId = item.1 ∧ old.active = true ∧
        entries id = some entry ∧ entry.frameId = old.owner ∧
        src.framesToCopy.idxOf old.owner = row.owner := by
    obtain ⟨item, there, copies⟩ := related_place compacted.vectors.flip found
    obtain ⟨_, old, inTable, active, space⟩ := mem_vectorsToCopy.mp (List.mem_of_getElem? there)
    obtain ⟨id, entry, known, same⟩ := mirrors.owned item.2 old inTable active
    obtain ⟨other, codec, again, mapped, _⟩ := copies.copied
    obtain rfl := Option.some.inj (inTable.symm.trans again)
    rw [lookup_zipIdx _ (same ▸ mirrors.active known), Nat.zero_add] at mapped
    exact ⟨item, old, id, entry, there, copies, inTable, space, active, known, same,
      Option.some.inj mapped⟩
  have models := congrArg List.length compacted.spaces
  rw [List.length_map, List.length_map] at models
  refine ⟨?_, ?_, ?_, ?_, ?_, compacted.coded⟩
  · intro id entry found
    obtain ⟨prior, was, rfl⟩ := Option.map_eq_some_iff.mp found
    obtain ⟨⟨old, there, active, collection, uri⟩, decodes⟩ := mirrors.frame id prior was
    obtain ⟨row, placed, copies⟩ := compacted.frame (mirrors.active was)
    obtain ⟨other, again, on, same, _, key, _⟩ := copies.copied
    obtain rfl := Option.some.inj (there.symm.trans again)
    refine ⟨⟨row, placed, on.trans active, same.trans collection, ?_⟩, decodes⟩
    rw [key, StoreEngine.readFrameUri, flushed, if_neg List.not_mem_nil, there]
    exact uri
  · intro place row found active
    obtain ⟨frameId, there, copies⟩ := related_place compacted.frames.flip found
    obtain ⟨old, inTable, on⟩ := mem_framesToCopy.mp (List.mem_of_getElem? there)
    obtain ⟨id, entry, known, same⟩ := mirrors.entered frameId old inTable on
    refine ⟨id, copiedEntry src entry, by rw [known]; rfl, ?_⟩
    unfold copiedEntry
    rw [same]
    exact place_of_nodup (framesToCopy_nodup src) there
  · intro id entry found
    obtain ⟨prior, was, rfl⟩ := Option.map_eq_some_iff.mp found
    obtain ⟨nodup, members⟩ := mirrors.vectors id prior was
    refine ⟨nodup.map_on ?_, fun item => ?_⟩
    · intro first one second two same
      exact (List.idxOf_inj (mirrors.to_copy was one)).mp (congrArg Prod.snd same)
    · constructor
      · intro member
        obtain ⟨first, there, rfl⟩ := List.mem_map.mp member
        obtain ⟨row, placed, copies⟩ := compacted.vector (mirrors.to_copy was there)
        obtain ⟨old, codec, inTable, mapped, _⟩ := copies.copied
        obtain ⟨other, again, _, owner, _⟩ := (members first).mp there
        obtain rfl := Option.some.inj (inTable.symm.trans again)
        rw [owner, lookup_zipIdx _ (mirrors.active was), Nat.zero_add] at mapped
        exact ⟨row, placed, copies.kept.1, (Option.some.inj mapped).symm, copies.kept.2.2⟩
      · rintro ⟨row, placed, _, owner, space⟩
        obtain ⟨first, old, other, entry, there, copies, inTable, sameSpace, active, known, same,
          place⟩ := source placed
        have frames : old.owner = prior.frameId :=
          (List.idxOf_inj (same ▸ mirrors.active known)).mp (place.trans owner)
        refine List.mem_map.mpr ⟨first, (members first).mpr ⟨old, inTable, active, frames,
          sameSpace⟩, ?_⟩
        exact Prod.ext (copies.kept.2.2.symm.trans space)
          (place_of_nodup (vectorsToCopy_nodup src) there)
  · intro place row found _
    obtain ⟨item, old, id, entry, _, _, _, _, _, known, same, owner⟩ := source found
    refine ⟨id, copiedEntry src entry, by rw [known]; rfl, ?_⟩
    unfold copiedEntry
    rw [same]
    exact owner
  · intro place row found
    obtain ⟨item, old, _, _, _, copies, inTable, space, _⟩ := source found
    refine ⟨?_, copies.kept.2.1⟩
    rw [copies.kept.2.2, ← space, models]
    exact (mirrors.spaced _ old inTable).1

variable {γ : Type}

theorem Compacted.recorded {schema : SchemaRegistry γ} (compacted : Compacted lossy src tables)
    (mirrors : MirrorsRows src.tables entries) (flushed : src.unflushed = []) {id : RecordId}
    {entry : Entry} {record : Given} (found : entries id = some entry)
    (recorded : Recorded lossy schema src.tables [] id entry record) :
    Recorded lossy schema tables [] id (copiedEntry src entry) record := by
  obtain ⟨shape, bound, ⟨old, there, payload⟩, held, holds, whole⟩ := recorded.listed
  refine ⟨recorded.once, shape, bound, ?_, held, ?_, whole⟩
  · obtain ⟨row, placed, copies⟩ := compacted.frame (mirrors.active found)
    obtain ⟨other, again, _, _, _, _, same⟩ := copies.copied
    obtain rfl := Option.some.inj (there.symm.trans again)
    rw [flushed, if_neg List.not_mem_nil] at same
    exact ⟨row, placed, same.trans payload⟩
  · refine List.forall₂_map_left_iff.mpr (related_mem holds fun item member vector holds => ?_)
    obtain ⟨old, inTable, derives⟩ := holds.row
    obtain ⟨row, placed, copies⟩ := compacted.vector (mirrors.to_copy found member)
    obtain ⟨other, codec, again, _, values⟩ := copies.copied
    obtain rfl := Option.some.inj (inTable.symm.trans again)
    exact ⟨holds.ready, row, placed, derives.tail ⟨codec, values⟩⟩

/-- The file that a compaction built holds every record, listed as before when the spaces were
registered in the order of the fields. -/
theorem Arranged.compact {state : WriterState κ γ} {given : RecordId → Option Given}
    (arranged : Arranged lossy state given) (landed : state.staged = [])
    (flushed : state.engine.unflushed = []) {faults : StorePoint → Bool} {value : Unit}
    (done : buildCompactedFile lossy refit recalibrate textSpaceOf state.engine { faults } =
      (.ok value, final))
    (ascends : ∀ id record, given id = some record → ∀ shape,
      state.schema.bound record.coll = some (id.1, shape) →
        state.schema.Ascends shape record.record) :
    Arranged lossy ⟨final.reopen, state.schema, IdentityIndex.rebuild final.reopen, []⟩ given ∧
      ∀ id entry, (IdentityIndex.rebuild final.reopen).entryAt id = some entry →
        entry.committed = true := by
  have compacted := buildCompactedFile_ok arranged.indexed.mirrors done
  have mirrors := compacted.mirrors arranged.indexed.mirrors flushed
  obtain ⟨rebuilt, committed⟩ := mirrors.rebuild rfl
  have sound := arranged.indexed.tracks.schema
  have models := congrArg List.length compacted.spaces
  rw [List.length_map, List.length_map] at models
  refine ⟨⟨⟨⟨?_, ?_, nofun, nofun⟩, rebuilt, ?_, nofun⟩, ?_, ?_⟩, committed⟩
  · exact sound.more models.ge
  · exact fun id entry found => (rebuilt.frame id entry found).1.keyed
  · intro id entry found open_
    rw [committed id entry found] at open_
    cases open_
  · intro id entry found
    obtain ⟨copied, there, _⟩ := rebuilt.agree mirrors found
    obtain ⟨prior, was, _⟩ := Option.map_eq_some_iff.mp there
    exact arranged.known id prior was
  · intro id record was
    obtain ⟨entry, found, recorded⟩ := arranged.recorded id record was
    rw [landed] at recorded
    have copied := compacted.recorded arranged.indexed.mirrors flushed found recorded
    exact copied.rebuild mirrors rfl sound (congrArg _ found) (ascends id record was)

end Copies

end Valise
