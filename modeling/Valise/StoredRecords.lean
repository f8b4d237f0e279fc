import Valise.RecordCommits

/-!
What a get reads of a record, and what commits do to the records that were put.
-/

namespace Valise

open ByteLists Commands Command Outcomes Writer

/-! ### Related lists -/

section Related

variable {α β δ : Type} {relates : α → β → Prop} {first : List α} {second : List β}

theorem related_right (related : List.Forall₂ relates first second) {value : β}
    (member : value ∈ second) : ∃ other ∈ first, relates other value := by
  induction related with
  | nil => cases member
  | cons one _ ih =>
    rcases List.mem_cons.mp member with rfl | later
    · exact ⟨_, List.mem_cons_self, one⟩
    · obtain ⟨other, there, same⟩ := ih later
      exact ⟨other, List.mem_cons_of_mem _ there, same⟩

theorem related_trans {onward : β → δ → Prop} {composed : α → δ → Prop} {third : List δ}
    (compose : ∀ one two three, relates one two → onward two three → composed one three)
    (related : List.Forall₂ relates first second) (others : List.Forall₂ onward second third) :
    List.Forall₂ composed first third := by
  induction related generalizing third with
  | nil =>
    cases others
    exact .nil
  | cons one _ ih =>
    cases others with
    | cons two rest => exact .cons (compose _ _ _ one two) (ih rest)

end Related

section Read

variable {κ γ : Type} {schema : SchemaRegistry γ} {tables : StoreTables κ} {shape : Shape}

/-- The codec that the vectors of a space are read with. -/
def SchemaRegistry.codecOf (schema : SchemaRegistry γ) (tables : StoreTables κ) (space : String) :
    Option κ := do
  let spaceId ← schema.vectorSpaceId space
  let row ← tables.spaces[spaceId]?
  tables.codecs[row.codecId]?

/-- What is read of a vector field: its values as they come out of its space's codec. -/
def ReadsField (lossy : κ → List F32 → List F32) (schema : SchemaRegistry γ)
    (tables : StoreTables κ) (shape : Shape) (field read : String × List F32) : Prop :=
  read.1 = field.1 ∧ ∃ space dim codec, shape.field field.1 = some (.vector space dim) ∧
    schema.codecOf tables space = some codec ∧ read.2 = lossy codec field.2

/-- A record that was read has everything the put was given; an empty text is no text. -/
structure CarriesRecord (lossy : κ → List F32 → List F32) (state : WriterState κ γ) (shape : Shape)
    (record : Record) (stored : StoredRecord) : Prop where
  created : ∀ time, record.createdAt = some time → stored.createdAt = time
  text : stored.text = record.textValue.filter (· ≠ "")
  vectors : ∃ read, List.Forall₂ (ReadsField lossy state.schema state.engine.tables shape)
    record.vectorValues read ∧ stored.vectors.Perm read

/-- What is read of a vector of a space. -/
def ReadsVector (lossy : κ → List F32 → List F32) (schema : SchemaRegistry γ)
    (tables : StoreTables κ) (shape : Shape) (vector read : String × List F32) : Prop :=
  (read.1, vector.1) ∈ shape.vectorFields ∧
    ∃ codec, schema.codecOf tables vector.1 = some codec ∧ read.2 = lossy codec vector.2

theorem Shape.mem_vectorFields {name space : String} :
    (name, space) ∈ shape.vectorFields ↔ ∃ dim, (name, Field.vector space dim) ∈ shape.fields := by
  unfold vectorFields
  rw [List.mem_filterMap]
  constructor
  · rintro ⟨⟨field, _ | ⟨bound, dim⟩⟩, member, same⟩
    · cases same
    · cases same
      exact ⟨dim, member⟩
  · rintro ⟨dim, member⟩
    exact ⟨_, member, rfl⟩

theorem Shape.mem_vectorFields_of_field {name space : String} {dim : Nat}
    (found : shape.field name = some (.vector space dim)) : (name, space) ∈ shape.vectorFields := by
  obtain ⟨before, after, split, _⟩ := List.lookup_eq_some_iff.mp found
  exact Shape.mem_vectorFields.mpr ⟨dim, by simp [split]⟩

/-- No two fields of a shape are bound to one vector space. -/
theorem Shape.Valid.field_of_space {first second space : String} (valid : shape.Valid)
    (one : (first, space) ∈ shape.vectorFields) (other : (second, space) ∈ shape.vectorFields) :
    first = second := by
  have same := List.inj_on_of_nodup_map valid.spaces one other rfl
  exact congrArg Prod.fst same

/-- The binding of a space's id to a field, as a get resolves it. -/
def vecFieldsOf (schema : SchemaRegistry γ) (shape : Shape) : List (Nat × String) :=
  shape.vectorFields.filterMap fun item =>
    (schema.vectorSpaceId item.2).map fun spaceId => (spaceId, item.1)

theorem lookup_vecFields {spaceCount spaceId : Nat} {name space : String}
    (sound : schema.Sound spaceCount) (valid : shape.Valid)
    (member : (name, space) ∈ shape.vectorFields)
    (ready : schema.vectorSpaceId space = some spaceId) :
    (vecFieldsOf schema shape).lookup spaceId = some name := by
  have there : (spaceId, name) ∈ vecFieldsOf schema shape :=
    List.mem_filterMap.mpr ⟨_, member, by simp [ready]⟩
  cases found : (vecFieldsOf schema shape).lookup spaceId with
  | none =>
    have absent := List.lookup_eq_none_iff.mp found _ there
    simp at absent
  | some other =>
    obtain ⟨before, after, split, _⟩ := List.lookup_eq_some_iff.mp found
    have chosen : (spaceId, other) ∈ vecFieldsOf schema shape := by simp [split]
    obtain ⟨⟨field, bound⟩, inShape, same⟩ := List.mem_filterMap.mp chosen
    obtain ⟨_, placed, pair⟩ := Option.map_eq_some_iff.mp same
    cases pair
    obtain rfl := sound.distinct _ _ _ placed ready
    rw [valid.field_of_space inShape member]

theorem readVectors_ok {lossy : κ → List F32 → List F32} {engine : StoreEngine κ} {spaceCount : Nat}
    {items : List (Nat × Nat)} {held vectors : List (String × List F32)}
    (sound : schema.Sound spaceCount) (valid : shape.Valid)
    (holds : List.Forall₂ (HoldsVector schema engine.tables) items held)
    (bound : ∀ vector ∈ held, ∃ name, (name, vector.1) ∈ shape.vectorFields)
    (done : Reader.readVectors lossy engine (vecFieldsOf schema shape) items = .ok vectors) :
    List.Forall₂ (ReadsVector lossy schema engine.tables shape) held vectors := by
  induction holds generalizing vectors with
  | nil =>
    cases done
    exact .nil
  | @cons item vector rest others holds _ ih =>
    obtain ⟨ready, row, found, space, values⟩ := holds
    obtain ⟨name, member⟩ := bound vector List.mem_cons_self
    simp only [Reader.readVectors, lookup_vecFields sound valid member ready,
      Outcome.bind_eq_ok] at done
    obtain ⟨read, first, more, remaining, ⟨⟩⟩ := done
    refine .cons ⟨member, ?_⟩ (ih (fun other later => bound other (List.mem_cons_of_mem _ later))
      remaining)
    simp only [StoreEngine.readVector, found, Outcome.bind_eq_ok] at first
    obtain ⟨_, _, _, _, _, _, decoded⟩ := first
    split at decoded
    · cases decoded
    · rename_i codec cached
      cases decoded
      refine ⟨codec, ?_, congrArg _ values⟩
      rw [SchemaRegistry.codecOf, ready, ← space]
      exact cached

/-- All values of a record that was checked are fields of its shape. -/
theorem checkFields_ok {coll : String} {fields : List (String × Value)}
    (checked : checkFields coll shape fields = .ok ()) :
    (∀ name values, (name, Value.vector values) ∈ fields →
      ∃ space, shape.field name = some (.vector space values.length)) ∧
    ∀ name text, (name, Value.text text) ∈ fields →
      ∃ space, shape.field name = some (.text space) := by
  induction fields with
  | nil => simp
  | cons item rest ih =>
    simp only [checkFields, Outcome.bind_eq_ok] at checked
    obtain ⟨_, first, others⟩ := checked
    simp only [checkField, Outcome.bind_eq_ok, required_eq_ok] at first
    obtain ⟨field, known, fits⟩ := first
    obtain ⟨vectors, texts⟩ := ih others
    constructor
    · intro name values member
      rcases List.mem_cons.mp member with rfl | later
      · cases field with
        | text space => cases fits
        | vector space dim =>
          simp only [Outcome.bind_eq_ok, Outcome.ensure_eq_ok] at fits
          obtain ⟨_, rfl, _⟩ := fits
          exact ⟨space, known⟩
      · exact vectors name values later
    · intro name text member
      rcases List.mem_cons.mp member with rfl | later
      · cases field with
        | text space => exact ⟨space, known⟩
        | vector space dim => cases fits
      · exact texts name text later

theorem Record.mem_vectorValues {record : Record} {name : String} {values : List F32} :
    (name, values) ∈ record.vectorValues ↔ (name, Value.vector values) ∈ record.fields := by
  unfold vectorValues
  rw [List.mem_filterMap]
  constructor
  · rintro ⟨⟨field, _ | bound⟩, member, same⟩
    · cases same
    · cases same
      exact member
  · intro member
    exact ⟨_, member, rfl⟩

theorem Record.mem_of_textValue {record : Record} {text : String}
    (found : record.textValue = some text) : ∃ name, (name, Value.text text) ∈ record.fields := by
  obtain ⟨⟨name, value⟩, member, same⟩ := List.exists_of_findSome?_eq_some found
  cases value with
  | text _ =>
    cases same
    exact ⟨name, member⟩
  | vector _ => cases same

theorem Shape.bind_fields {coll : String} {record : Record}
    (checked : checkFields coll shape record.fields = .ok ()) :
    List.Forall₂ (fun field (vector : String × List F32) =>
      (∃ dim, shape.field field.1 = some (.vector vector.1 dim)) ∧ vector.2 = field.2)
      record.vectorValues (shape.bind record) := by
  have known : ∀ item ∈ record.vectorValues, ∃ space dim,
      shape.field item.1 = some (.vector space dim) := by
    rintro ⟨name, values⟩ member
    obtain ⟨space, found⟩ := (checkFields_ok checked).1 _ _ (Record.mem_vectorValues.mp member)
    exact ⟨space, _, found⟩
  unfold Shape.bind
  revert known
  induction record.vectorValues with
  | nil => exact fun _ => .nil
  | cons item rest ih =>
    intro known
    obtain ⟨space, dim, found⟩ := known item List.mem_cons_self
    rw [List.filterMap_cons]
    simp only [found]
    exact .cons ⟨⟨dim, found⟩, rfl⟩ (ih fun other later => known other (List.mem_cons_of_mem _ later))

theorem readText_payload {record : Record} {hasText : Bool} {text : Option String}
    (shown : ∀ text, record.textValue = some text → hasText = true)
    (done : Reader.readText hasText ((record.textValue.map utf8).getD []) = .ok text) :
    text = record.textValue.filter (· ≠ "") := by
  unfold Reader.readText at done
  cases set : record.textValue with
  | none =>
    rw [set] at done
    simpa using done.symm
  | some value =>
    have empty : utf8 value = [] ↔ value = "" := by
      constructor
      · intro nothing
        have same : ofUtf8 (utf8 value) = ofUtf8 (utf8 "") := congrArg ofUtf8 (nothing.trans rfl)
        simpa using same
      · rintro rfl
        rfl
    rw [set] at done
    simp only [shown value set, Option.map_some, Option.getD_some, Bool.true_eq_false, false_or,
      empty] at done
    by_cases blank : value = ""
    · rw [if_pos blank] at done
      cases done
      simp [Option.filter, blank]
    · rw [if_neg blank] at done
      simp only [ofUtf8_utf8, Outcome.bind_eq_ok, required_eq_ok] at done
      obtain ⟨_, ⟨⟩, ⟨⟩⟩ := done
      simp [Option.filter, blank]

theorem Shape.textField_isSome {name space : String}
    (found : shape.field name = some (.text space)) : shape.textField.isSome = true := by
  obtain ⟨before, after, split, _⟩ := List.lookup_eq_some_iff.mp found
  unfold Shape.textField
  rw [List.findSome?_isSome_iff]
  exact ⟨(name, .text space), by simp [split], rfl⟩

end Read

section Get

variable {κ γ : Type} {lossy : κ → List F32 → List F32} {state : WriterState κ γ} {coll : String}
  {key : Key} {stored : StoredRecord} {given : RecordId → Option Given}

theorem Reader.resolveFields_ok {schema : SchemaRegistry γ} {fields : ResolvedFields} :
    Reader.resolveFields schema coll = .ok fields ↔ ∃ collectionId shape,
      schema.bound coll = some (collectionId, shape) ∧
        fields = ⟨collectionId, shape.textField.isSome, vecFieldsOf schema shape⟩ := by
  simp only [Reader.resolveFields, Outcome.bind_eq_ok, required_eq_ok]
  constructor
  · rintro ⟨⟨collectionId, _⟩, known, shape, rfl, ⟨⟩⟩
    exact ⟨collectionId, shape, SchemaRegistry.bound_eq_some.mpr known, rfl⟩
  · rintro ⟨collectionId, shape, bound, rfl⟩
    exact ⟨_, SchemaRegistry.bound_eq_some.mp bound, shape, rfl, rfl⟩

theorem Reader.get_ok {found : Option StoredRecord}
    (done : Reader.get lossy state coll key = .ok found) :
    ∃ collectionId shape, state.schema.bound coll = some (collectionId, shape) ∧
      match state.identity.entryAt (collectionId, key.encode) with
      | none => found = none
      | some entry => ∃ stored, found = some stored ∧ Reader.materialize lossy state.engine key coll
          entry ⟨collectionId, shape.textField.isSome, vecFieldsOf state.schema shape⟩ =
            .ok stored := by
  obtain ⟨fields, resolved, rest⟩ := Outcome.bind_eq_ok.mp done
  obtain ⟨collectionId, shape, bound, rfl⟩ := Reader.resolveFields_ok.mp resolved
  refine ⟨collectionId, shape, bound, ?_⟩
  dsimp only at rest
  rw [IdentityIndex.get_eq] at rest
  cases existing : state.identity.entryAt (collectionId, key.encode) with
  | none =>
    rw [existing] at rest
    cases rest
    rfl
  | some entry =>
    rw [existing] at rest
    obtain ⟨stored, read, same⟩ := Outcome.bind_eq_ok.mp rest
    cases same
    exact ⟨stored, rfl, read⟩

/-- What is materialized from the rows of an entry carries the record that they describe. -/
theorem Describes.carries {id : RecordId} {entry : Entry} {record : Given} {shape : Shape}
    (describes : Describes state id entry record)
    (sound : state.schema.Sound state.engine.tables.spaces.length)
    (bound : state.schema.bound record.coll = some (id.1, shape))
    (landed : waiting state.staged entry.frameId = [])
    (read : Reader.materialize lossy state.engine key coll entry
      ⟨id.1, shape.textField.isSome, vecFieldsOf state.schema shape⟩ = .ok stored) :
    CarriesRecord lossy state shape record.record stored := by
  obtain ⟨described, bound', checked, frame, held, holds, whole⟩ := describes.frame
  obtain rfl : described = shape := (Prod.ext_iff.mp (Option.some.inj (bound'.symm.trans bound))).2
  have valid := sound.shaped _ _ _ bound'
  rw [landed, List.append_nil] at whole
  simp only [Reader.materialize, Outcome.bind_eq_ok, required_eq_ok] at read
  obtain ⟨row, there, text, texts, vectors, vectorsRead, ⟨⟩⟩ := read
  obtain ⟨_, again, created, payload⟩ := frame.row
  obtain rfl := Option.some.inj (there.symm.trans again)
  refine ⟨created, ?_, ?_⟩
  · rw [payload] at texts
    refine readText_payload ?_ texts
    intro value set
    obtain ⟨name, member⟩ := Record.mem_of_textValue set
    obtain ⟨space, known⟩ := (checkFields_ok checked).2 name value member
    exact Shape.textField_isSome known
  · have fields := Shape.bind_fields checked
    have boundVectors : ∀ vector ∈ held, ∃ name, (name, vector.1) ∈ described.vectorFields := by
      intro vector member
      obtain ⟨field, _, ⟨dim, known⟩, _⟩ := related_right fields (whole.subset member)
      exact ⟨field.1, Shape.mem_vectorFields_of_field known⟩
    have reads := readVectors_ok sound valid holds boundVectors vectorsRead
    obtain ⟨sorted, forward, permuted⟩ := List.perm_comp_forall₂ whole.symm reads
    refine ⟨sorted, related_trans ?_ fields forward, permuted.symm⟩
    rintro field vector read ⟨⟨dim, known⟩, values⟩ ⟨member, codec, cached, decoded⟩
    have name := valid.field_of_space member (Shape.mem_vectorFields_of_field known)
    exact ⟨name, vector.1, dim, codec, known, cached, values ▸ decoded⟩

end Get

end Valise
