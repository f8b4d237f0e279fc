import Valise.SchemaDocs
import Valise.Writer
import Valise.CodecParams

/-!
Declared schemas: the specs of their fields, what is checked of them before anything is defined, and
the docs that they are lowered to and parsed from.
-/

namespace Valise

open ByteLists Commands Outcomes

namespace Declarations

/-! ### Specs -/

inductive Metric where
  | cosine
  | dot
  | l2
deriving DecidableEq

def Metric.toEngine : Metric → VectorMetric
  | .cosine => .cosine
  | .dot => .innerProduct
  | .l2 => .l2

def Metric.fromEngine : VectorMetric → Metric
  | .cosine => .cosine
  | .innerProduct => .dot
  | .l2 => .l2

@[simp] theorem Metric.fromEngine_toEngine (metric : Metric) :
    Metric.fromEngine metric.toEngine = metric := by
  cases metric <;> rfl

inductive Lang where
  | english
  | raw
deriving DecidableEq

inductive SpaceKind where
  | vector (dim : UInt32)
  | text
deriving DecidableEq

/-- A handle to a space; it is resolved by name. -/
structure Space where
  name : String
  kind : SpaceKind
deriving DecidableEq

namespace Space

def isText (space : Space) : Bool := space.kind = .text

def isVector (space : Space) : Bool :=
  match space.kind with
  | .vector _ => true
  | .text => false

end Space

inductive UpqDesign where
  | empirical
  | rayleigh
deriving DecidableEq

inductive CodecSpec where
  | qam (ampBits phaseBits : UInt8)
  | upq (cells : UInt32) (design : UpqDesign)
  | prebuilt (params : CodecParams)
deriving DecidableEq

inductive CalibrateMode where
  | auto (sample : UInt64)
  | now (sample : List (List F32))
deriving DecidableEq

structure VectorInline where
  dim : UInt32
  metric : Metric
  codec : CodecSpec
  calibrate : CalibrateMode
deriving DecidableEq

inductive TextBinding where
  | inline (lang : Lang)
  | shared (space : Space)
deriving DecidableEq

inductive VectorBinding where
  | inline (spec : VectorInline)
  | shared (space : Space)
deriving DecidableEq

/-- `sharedMisuse` names a method that configured a shared binding. -/
inductive FieldSpec where
  | text (binding : TextBinding)
  | vector (binding : VectorBinding) (sharedMisuse : Option String)
deriving DecidableEq

structure Schema where
  fields : List (String × FieldSpec)
deriving DecidableEq

def autoSpaceName (collection field : String) : String := s!"~auto/{collection}/{field}"

/-- The space that a field is bound to; an inline spec has one of its own. -/
def FieldSpec.spaceName (owner field : String) : FieldSpec → String
  | .text (.inline _) => autoSpaceName owner field
  | .text (.shared space) => space.name
  | .vector (.inline _) _ => autoSpaceName owner field
  | .vector (.shared space) _ => space.name

/-! ### Bound shapes -/

inductive Field where
  | text (space : Space)
  | vector (space : Space)
deriving DecidableEq

structure Shape where
  fields : List (String × Field)
deriving DecidableEq

/-- The names of the vector spaces that were seen, and how many text fields. -/
structure Seen where
  names : List String := []
  vectorSpaces : List String := []
  textFields : Nat := 0

def Seen.name (seen : Seen) (name : String) : Result Seen := do
  Outcome.ensure (name ∉ seen.names) (.format s!"schema: duplicate field name '{name}'")
  return { seen with names := seen.names ++ [name] }

def Seen.text (seen : Seen) : Seen := { seen with textFields := seen.textFields + 1 }

def Seen.vectorSpace (seen : Seen) (space : String) : Result Seen := do
  Outcome.ensure (space ∉ seen.vectorSpaces) (.format
    s!"schema: vector fields must use distinct spaces; '{space}' is reused")
  return { seen with vectorSpaces := seen.vectorSpaces ++ [space] }

def ensureText (field : String) (space : Space) : Result Unit :=
  Outcome.ensure (space.isText = true) (.format
    s!"schema: field '{field}' is declared text but bound to vector space '{space.name}'")

def ensureVector (field : String) (space : Space) : Result Unit :=
  Outcome.ensure (space.isVector = true) (.format
    s!"schema: field '{field}' is declared vector but bound to text space '{space.name}'")

def ensureOneText (seen : Seen) : Result Unit :=
  Outcome.ensure (seen.textFields ≤ 1) (.unsupported
    "schema: at most one text field per collection in v1 (use the doc→chunk pattern for multiple text fields)")

def checkBoundField (seen : Seen) (item : String × Field) : Result Seen := do
  let seen ← seen.name item.1
  match item.2 with
  | .text space => do
      ensureText item.1 space
      return seen.text
  | .vector space => do
      ensureVector item.1 space
      seen.vectorSpace space.name

def checkBoundFields : Seen → List (String × Field) → Result Seen
  | seen, [] => return seen
  | seen, item :: rest => do
      let seen ← checkBoundField seen item
      checkBoundFields seen rest

def Shape.validate (shape : Shape) : Result Unit := do
  let seen ← checkBoundFields {} shape.fields
  ensureOneText seen

/-! ### Checks of a declaration -/

def sharedMisuseError (context name method : String) : Error :=
  .format (s!"{context}: field '{name}' binds a shared space — .{method}() is configured on the " ++
    "space at define_space, not on the binding")

def checkMisuse (context name : String) : Option String → Result Unit
  | none => return ()
  | some method => .err (sharedMisuseError context name method)

def checkDeclaredField (coll : String) (seen : Seen) (item : String × FieldSpec) : Result Seen := do
  let seen ← seen.name item.1
  match item.2 with
  | .text (.inline _) => return seen.text
  | .text (.shared space) => do
      ensureText item.1 space
      return seen.text
  | .vector (.inline _) misuse => do
      checkMisuse "schema" item.1 misuse
      seen.vectorSpace (autoSpaceName coll item.1)
  | .vector (.shared space) misuse => do
      checkMisuse "schema" item.1 misuse
      ensureVector item.1 space
      seen.vectorSpace space.name

def checkDeclaredFields (coll : String) : Seen → List (String × FieldSpec) → Result Seen
  | seen, [] => return seen
  | seen, item :: rest => do
      let seen ← checkDeclaredField coll seen item
      checkDeclaredFields coll seen rest

def validateSchema (coll : String) (schema : Schema) : Result Unit := do
  let seen ← checkDeclaredFields coll {} schema.fields
  ensureOneText seen

/-- The vector fields with the spaces they are bound to. -/
def vectorSpacesOf (coll : String) (fields : List (String × FieldSpec)) : List String :=
  fields.filterMap fun item =>
    match item.2 with
    | .text _ => none
    | .vector _ _ => some (item.2.spaceName coll item.1)

theorem Seen.name_ok {seen after : Seen} {name : String} (done : seen.name name = .ok after) :
    after.vectorSpaces = seen.vectorSpaces := by
  simp only [Seen.name, Outcome.bind_eq_ok, Outcome.pure_eq, Outcome.ok.injEq] at done
  obtain ⟨_, _, rfl⟩ := done
  rfl

theorem Seen.vectorSpace_ok {seen after : Seen} {space : String}
    (done : seen.vectorSpace space = .ok after) :
    space ∉ seen.vectorSpaces ∧ after.vectorSpaces = seen.vectorSpaces ++ [space] := by
  simp only [Seen.vectorSpace, Outcome.bind_eq_ok, Outcome.ensure_eq_ok, Outcome.pure_eq,
    Outcome.ok.injEq] at done
  obtain ⟨_, fresh, rfl⟩ := done
  exact ⟨fresh, rfl⟩

theorem checkDeclaredField_ok {coll : String} {seen after : Seen} {item : String × FieldSpec}
    (done : checkDeclaredField coll seen item = .ok after) :
    (∀ space ∈ vectorSpacesOf coll [item], space ∉ seen.vectorSpaces) ∧
      after.vectorSpaces = seen.vectorSpaces ++ vectorSpacesOf coll [item] := by
  obtain ⟨name, spec⟩ := item
  simp only [checkDeclaredField, Outcome.bind_eq_ok] at done
  obtain ⟨named, first, done⟩ := done
  have same := Seen.name_ok first
  rw [← same]
  rcases spec with (lang | space) | ⟨spec | space, misuse⟩
  · obtain rfl := Outcome.ok.inj done
    exact ⟨nofun, (List.append_nil _).symm⟩
  · simp only [Outcome.bind_eq_ok, Outcome.pure_eq, Outcome.ok.injEq] at done
    obtain ⟨_, _, rfl⟩ := done
    exact ⟨nofun, (List.append_nil _).symm⟩
  · simp only [Outcome.bind_eq_ok] at done
    obtain ⟨_, _, done⟩ := done
    obtain ⟨fresh, grown⟩ := Seen.vectorSpace_ok done
    exact ⟨by simpa [vectorSpacesOf, FieldSpec.spaceName] using fresh, grown⟩
  · simp only [Outcome.bind_eq_ok] at done
    obtain ⟨_, _, _, _, done⟩ := done
    obtain ⟨fresh, grown⟩ := Seen.vectorSpace_ok done
    exact ⟨by simpa [vectorSpacesOf, FieldSpec.spaceName] using fresh, grown⟩

theorem vectorSpacesOf_cons (coll : String) (item : String × FieldSpec)
    (rest : List (String × FieldSpec)) :
    vectorSpacesOf coll (item :: rest) = vectorSpacesOf coll [item] ++ vectorSpacesOf coll rest :=
  List.filterMap_append (l := [item])

theorem checkDeclaredFields_ok {coll : String} {seen after : Seen}
    {fields : List (String × FieldSpec)}
    (done : checkDeclaredFields coll seen fields = .ok after) :
    seen.vectorSpaces.Nodup → (seen.vectorSpaces ++ vectorSpacesOf coll fields).Nodup := by
  induction fields generalizing seen with
  | nil =>
    intro nodup
    exact (List.append_nil seen.vectorSpaces).symm ▸ nodup
  | cons item rest ih =>
    intro nodup
    simp only [checkDeclaredFields, Outcome.bind_eq_ok] at done
    obtain ⟨middle, first, done⟩ := done
    obtain ⟨fresh, grown⟩ := checkDeclaredField_ok first
    have single : (vectorSpacesOf coll [item]).Nodup := by
      obtain ⟨name, spec⟩ := item
      cases spec with
      | text binding => exact List.nodup_nil
      | vector binding misuse => exact List.nodup_singleton _
    have apart : middle.vectorSpaces.Nodup := by
      rw [grown]
      refine List.nodup_append.mpr ⟨nodup, single, ?_⟩
      intro old there space new same
      exact fresh space new (same ▸ there)
    have whole := ih done apart
    rwa [grown, List.append_assoc, ← vectorSpacesOf_cons] at whole

/-- No two vector fields of a schema that was accepted share a space. -/
theorem validateSchema_ok {coll : String} {schema : Schema}
    (valid : validateSchema coll schema = .ok ()) :
    (vectorSpacesOf coll schema.fields).Nodup := by
  simp only [validateSchema, Outcome.bind_eq_ok] at valid
  obtain ⟨_, checked, _⟩ := valid
  exact checkDeclaredFields_ok checked List.nodup_nil

/-! ### Signatures -/

/-- What a declaration without a doc is compared by. -/
structure FieldSig where
  name : String
  kind : String
  space : String
deriving DecidableEq

def FieldSig.text (sig : FieldSig) : String := s!"{sig.kind} '{sig.name}' (space '{sig.space}')"

def FieldSpec.kind : FieldSpec → String
  | .text _ => kindText
  | .vector _ _ => kindVector

def schemaSignature (coll : String) (schema : Schema) : List FieldSig :=
  schema.fields.map fun item => ⟨item.1, item.2.kind, item.2.spaceName coll item.1⟩

def shapeSignature (shape : Shape) : List FieldSig :=
  shape.fields.map fun item =>
    match item.2 with
    | .text space => ⟨item.1, kindText, space.name⟩
    | .vector space => ⟨item.1, kindVector, space.name⟩

def checkSignatures (coll : String) : Nat → List (FieldSig × FieldSig) → Result Unit
  | _, [] => return ()
  | place, (old, new) :: rest => do
      Outcome.ensure (old = new) (schemaMismatch coll
        s!"field {place} was declared as {old.text}, re-declared as {new.text}")
      checkSignatures coll (place + 1) rest

def checkRedeclare (coll : String) (existing : Shape) (schema : Schema) : Result Unit := do
  let old := shapeSignature existing
  let new := schemaSignature coll schema
  Outcome.ensure (old.length ≤ new.length) (schemaMismatch coll
    s!"re-declared with {new.length} field(s), but {old.length} were previously declared")
  checkSignatures coll 0 (old.zip new)

/-! ### Docs -/

def Lang.str : Lang → String
  | .english => "english"
  | .raw => "raw"

def Metric.str : Metric → String
  | .cosine => "cosine"
  | .dot => "dot"
  | .l2 => "l2"

def metricFromStr (text : String) : Result Metric :=
  if text = "cosine" then return .cosine
  else if text = "dot" then return .dot
  else if text = "l2" then return .l2
  else .err (.format s!"schema doc: unknown metric '{text}'")

@[simp] theorem metricFromStr_str (metric : Metric) : metricFromStr metric.str = .ok metric := by
  cases metric <;> rfl

def UpqDesign.str : UpqDesign → String
  | .empirical => "empirical"
  | .rayleigh => "rayleigh"

def designFromStr (text : String) : Result UpqDesign :=
  if text = "empirical" then return .empirical
  else if text = "rayleigh" then return .rayleigh
  else .err (.format s!"schema doc: unknown UPQ design '{text}'")

@[simp] theorem designFromStr_str (design : UpqDesign) : designFromStr design.str = .ok design := by
  cases design <;> rfl

def familyStr : CodecFamily → Result String
  | .qamLloydMax => return "qam_lloyd_max"
  | .upq => return "upq"
  | .legacyInt4PcaZero =>
      .err (.unsupported "schema doc: legacy codec family cannot be persisted")

def familyFromStr (text : String) : Result CodecFamily :=
  if text = "qam_lloyd_max" then return .qamLloydMax
  else if text = "upq" then return .upq
  else .err (.format s!"schema doc: unknown codec family '{text}'")

/-- The JSON library with the values that specs are lowered to, codec parameters as hex text, and
how QAM and UPQ parameters are fitted to a sample. -/
structure SchemaLibrary (ν : Type) extends DocJson ν where
  textValue : TextSpecDoc → Result ν
  vectorValue : VectorSpecDoc → Result ν
  paramsHex : CodecParams → Result String
  paramsOfHex : CodecFamily → String → Result CodecParams
  fit : UInt32 → CodecSpec → List (List F32) → Result CodecParams

/-- What was lowered is read back, docs and specs. -/
structure SchemaLibrary.ReadsBack {ν : Type} (library : SchemaLibrary ν) : Prop where
  docs : library.toDocJson.ReadsBack
  text : ∀ spec value, library.textValue spec = .ok value → library.textSpec value = some spec
  vector : ∀ spec value, library.vectorValue spec = .ok value → library.vectorSpec value = some spec

def defaultCalibrateSample : Nat := 50000

def sampleTargetOf (sample : UInt64) : Nat := max sample.toNat 1

section Lowering

variable {ν : Type} (library : SchemaLibrary ν)

def codecDoc : CodecSpec → Result CodecDoc
  | .qam ampBits phaseBits => return .qam ampBits phaseBits
  | .upq cells design => return .upq cells design.str
  | .prebuilt params => do
      let family ← familyStr params.family
      let hex ← library.paramsHex params
      return .prebuilt family hex

def toCodecSpec : CodecDoc → Result CodecSpec
  | .qam ampBits phaseBits => return .qam ampBits phaseBits
  | .upq cells design => do
      let design ← designFromStr design
      return .upq cells design
  | .prebuilt family hex => do
      let family ← familyFromStr family
      let params ← library.paramsOfHex family hex
      return .prebuilt params

def calibrateDoc : CalibrateMode → CalibrateDoc
  | .auto sample => .auto sample
  | .now _ => .now

def sampleTarget : CalibrateDoc → Nat
  | .auto sample => sampleTargetOf sample
  | .now => defaultCalibrateSample

def vectorDoc (spec : VectorInline) : Result VectorSpecDoc := do
  let codec ← codecDoc library spec.codec
  return ⟨spec.dim, spec.metric.str, codec, calibrateDoc spec.calibrate⟩

/-- A shared binding has no spec in the doc. -/
def specValue : FieldSpec → Result (Option ν)
  | .text (.inline lang) => do
      let value ← library.textValue ⟨lang.str⟩
      return some value
  | .vector (.inline spec) _ => do
      let doc ← vectorDoc library spec
      let value ← library.vectorValue doc
      return some value
  | .text (.shared _) => return none
  | .vector (.shared _) _ => return none

def fieldDoc (owner : String) (item : String × FieldSpec) : Result (FieldDoc ν) := do
  let spec ← specValue library item.2
  return ⟨item.1, item.2.kind, item.2.spaceName owner item.1, spec⟩

def fieldDocs (owner : String) : List (String × FieldSpec) → Result (List (FieldDoc ν))
  | [] => return []
  | item :: rest => do
      let doc ← fieldDoc library owner item
      let docs ← fieldDocs owner rest
      return doc :: docs

def docOfSchema (owner : String) (schema : Schema) : Result (SchemaDoc ν) := do
  let fields ← fieldDocs library owner schema.fields
  return ⟨schemaDocVersion, fields⟩

variable {library}

theorem docOfSchema_ok {owner : String} {schema : Schema} {doc : SchemaDoc ν}
    (lowered : docOfSchema library owner schema = .ok doc) :
    doc.valiseSchema = schemaDocVersion ∧
      fieldDocs library owner schema.fields = .ok doc.fields := by
  simp only [docOfSchema, Outcome.bind_eq_ok, Outcome.pure_eq, Outcome.ok.injEq] at lowered
  obtain ⟨fields, done, rfl⟩ := lowered
  exact ⟨rfl, done⟩

/-- A codec that is fitted later comes back as it was declared. -/
theorem toCodecSpec_codecDoc {codec : CodecSpec} {doc : CodecDoc}
    (fitted : ∀ params, codec ≠ .prebuilt params) (lowered : codecDoc library codec = .ok doc) :
    toCodecSpec library doc = .ok codec := by
  cases codec with
  | qam ampBits phaseBits =>
    obtain rfl := Outcome.ok.inj lowered
    rfl
  | upq cells design =>
    obtain rfl := Outcome.ok.inj lowered
    simp [toCodecSpec]
  | prebuilt params => exact absurd rfl (fitted params)

end Lowering

end Declarations

end Valise
