import Valise.FrameDates
import Valise.SchemaDocs

/-!
Schema docs among the frames of a file. A doc is dated by the youngest frame that is active when it
is declared, so it stays in the way of later frames that are older, even when that frame is gone.
-/

namespace Valise

open ByteLists Commands Command Outcomes Runs SortedTables

def schemaCollection : String := "~valise.schema"

namespace ValiseFile

def schemaCollectionId (handle : ValiseFile) : Option CollectionId :=
  ((handle.tables .collection).find? fun collection =>
    collection.name = schemaCollection ∧ collection.flags &&& 1 = 0).map CollectionDesc.collectionId

end ValiseFile

def ensureSchemaCollection (now : Int64) : Engine CollectionId := do
  let handle ← Command.get
  match handle.schemaCollectionId with
  | some collectionId => return collectionId
  | none => do
      fallible .clock
      createCollectionAt schemaCollection now

/-- The youngest date, and no date before 1970. -/
def watermark (handle : ValiseFile) : Int64 :=
  (handle.activeFrames.map FrameDesc.createdAt).foldl laterDate 0

def deleteReplaced (now : Int64) : Option FrameId → Engine Unit
  | none => return ()
  | some frameId => deleteFrame frameId now

/-- The new doc is dated after the doc that it replaces is gone. -/
def applySync (coll : String) (newDoc : Result Bytes) (plan : DocSync FrameId) (now : Int64) :
    Engine Unit :=
  match plan with
  | .upToDate => return ()
  | .write replace => do
      let collectionId ← ensureSchemaCollection now
      deleteReplaced now replace
      let payload ← lift newDoc
      let handle ← Command.get
      let createdAt := watermark handle
      let _ ← putFrame ⟨collectionId, .document, payload, some createdAt, some createdAt, none, none,
        none, some (docUri coll)⟩ now
      return ()

/-! ### Runs with declarations -/

/-- A doc frame, and the frames that were active when it was declared. -/
structure Declaration where
  frameId : FrameId
  seen : List FrameId

structure SchemaSession where
  handle : ValiseFile
  declared : List Declaration := []

/-- The frames that entered are the docs of the declaration. -/
def declarations (before after : List DatedFrame) : List Declaration :=
  (after.filter fun frame => ∀ old ∈ before, old.id ≠ frame.id).map fun frame =>
    ⟨frame.1.frameId, (after.filter fun other =>
      other.2 = .active ∧ other.id < frame.id).map fun other => other.1.frameId⟩

def SchemaSession.declare (session : SchemaSession) (faults : IoPoint → Bool) (coll : String)
    (newDoc : Result Bytes) (plan : DocSync FrameId) (now : Int64) : SchemaSession :=
  let after := (session.handle.withFaults faults).ran (applySync coll newDoc plan now)
  { handle := after
    declared := session.declared ++ declarations session.handle.dates after.dates }

/-- No frame is dated before 1970. -/
def Operation.FromEpoch : Operation → Prop
  | .putFrame input now => 0 ≤ (input.createdAt.getD now).toInt
  | _ => True

/-- Any calls in any order, and declarations with any plan between them. -/
inductive SchemaStep (analyze : Analyze) : SchemaSession → SchemaSession → Prop where
  | call {session : SchemaSession} (faults : IoPoint → Bool) {operation : Operation} :
      operation.FromEpoch → SchemaStep analyze session
        { session with handle := operation.run analyze (session.handle.withFaults faults) }
  | declare {session : SchemaSession} (faults : IoPoint → Bool) (coll : String)
      (newDoc : Result Bytes) (plan : DocSync FrameId) (now : Int64) :
      SchemaStep analyze session (session.declare faults coll newDoc plan now)

def SchemaSession.Starts (session : SchemaSession) : Prop :=
  Fresh session.handle ∧ session.declared = []

abbrev SchemaReachable (analyze : Analyze) : SchemaSession → Prop :=
  Reachable SchemaSession.Starts (SchemaStep analyze)

namespace SchemaSession

variable (session : SchemaSession)

def IsDoc (frameId : FrameId) : Prop := ∃ doc ∈ session.declared, doc.frameId = frameId

instance (frameId : FrameId) : Decidable (session.IsDoc frameId) :=
  inferInstanceAs (Decidable (∃ doc ∈ session.declared, doc.frameId = frameId))

/-- The catalog with the frames of the users alone. -/
def withoutDocs : ValiseFile :=
  session.handle.setTable .frame
    ((session.handle.tables .frame).filter fun frame => ¬session.IsDoc frame.frameId) []

def Accepts (handle : ValiseFile) : Prop :=
  ∃ index, encodeTimeIndexSegment handle.timeIndexEntries = .ok index

/-- A frame of a user that entered after an active doc is older than a frame that was active when
the doc was declared. -/
def Overtaken : Prop :=
  ∃ declaration ∈ session.declared, ∃ doc ∈ session.handle.activeFrames,
    doc.frameId = declaration.frameId ∧ ∃ frame ∈ session.handle.activeFrames,
      ¬session.IsDoc frame.frameId ∧ declaration.frameId.toNat < frame.frameId.toNat ∧
      ∃ old ∈ session.handle.tables .frame, old.frameId ∈ declaration.seen ∧
        frame.createdAt.toInt < old.createdAt.toInt

end SchemaSession

/-! ### The watermark -/

def activeDates (dates : List DatedFrame) : List TimeIndexEntry :=
  (dates.filter fun frame => frame.2 = .active).map Prod.fst

theorem activeFrames_entries (handle : ValiseFile) :
    handle.activeFrames.map FrameDesc.indexEntry = activeDates handle.dates := by
  rw [activeDates, ValiseFile.dates, List.filter_map, List.map_map]
  rfl

theorem mem_activeDates {dates : List DatedFrame} {entry : TimeIndexEntry} :
    entry ∈ activeDates dates ↔ (entry, FrameStatus.active) ∈ dates := by
  simp only [activeDates, List.mem_map, List.mem_filter, decide_eq_true_eq]
  constructor
  · rintro ⟨⟨_, _⟩, ⟨member, rfl⟩, rfl⟩
    exact member
  · intro member
    exact ⟨_, ⟨member, rfl⟩, rfl⟩

theorem laterDate_toInt (first second : Int64) :
    (laterDate first second).toInt = max first.toInt second.toInt := by
  unfold laterDate
  split <;> omega

theorem foldl_laterDate (dates : List Int64) (first : Int64) :
    (∀ date ∈ first :: dates, date.toInt ≤ (dates.foldl laterDate first).toInt) ∧
      dates.foldl laterDate first ∈ first :: dates := by
  induction dates generalizing first with
  | nil => exact ⟨by simp, by simp⟩
  | cons date dates ih =>
      obtain ⟨above, attained⟩ := ih (laterDate first date)
      have here := laterDate_toInt first date
      have bound := above _ List.mem_cons_self
      rw [List.foldl_cons]
      constructor
      · intro other member
        rcases List.mem_cons.mp member with rfl | later
        · omega
        · rcases List.mem_cons.mp later with rfl | rest
          · omega
          · exact above other (List.mem_cons_of_mem _ rest)
      · rcases List.mem_cons.mp attained with same | rest
        · rw [same]
          unfold laterDate
          split <;> simp
        · exact List.mem_cons_of_mem _ (List.mem_cons_of_mem _ rest)

/-- The date that a doc gets over these frames. -/
def latestOf (dates : List DatedFrame) : Int64 :=
  ((activeDates dates).map TimeIndexEntry.createdAt).foldl laterDate 0

theorem watermark_eq (handle : ValiseFile) : watermark handle = latestOf handle.dates := by
  rw [latestOf, ← activeFrames_entries, List.map_map]
  rfl

theorem latestOf_nonneg (dates : List DatedFrame) : 0 ≤ (latestOf dates).toInt :=
  (foldl_laterDate _ 0).1 0 List.mem_cons_self

theorem le_latestOf {dates : List DatedFrame} {frame : DatedFrame} (member : frame ∈ dates)
    (active : frame.2 = .active) : frame.1.createdAt.toInt ≤ (latestOf dates).toInt := by
  refine (foldl_laterDate _ 0).1 _ (List.mem_cons_of_mem _ (List.mem_map_of_mem ?_))
  exact mem_activeDates.mpr (active ▸ member)

theorem latestOf_attained (dates : List DatedFrame) :
    latestOf dates = 0 ∨ ∃ frame ∈ dates, frame.2 = .active ∧
      frame.1.createdAt = latestOf dates := by
  refine (List.mem_cons.mp (foldl_laterDate _ 0).2).imp id fun member => ?_
  obtain ⟨entry, listed, same⟩ := List.mem_map.mp member
  exact ⟨(entry, .active), mem_activeDates.mp listed, rfl, same⟩

/-! ### What every run keeps -/

/-- Docs are dated above every frame they have seen, and no higher than the youngest of them; and a
frame before a doc is active only when the doc has seen it. -/
structure Watermarked (dates : List DatedFrame) (next : Nat) (declared : List Declaration) : Prop where
  order : InIdOrder dates next
  dated : ∀ frame ∈ dates, 0 ≤ frame.1.createdAt.toInt
  entered : ∀ doc ∈ declared, doc.frameId.toNat < next
  seenBefore : ∀ doc ∈ declared, ∀ frameId ∈ doc.seen, frameId.toNat < doc.frameId.toNat
  settled : ∀ doc ∈ declared, ∀ frame ∈ dates, frame.1.frameId = doc.frameId → frame.2 = .active →
    frame.1.updatedAt = frame.1.createdAt
  covers : ∀ doc ∈ declared, ∀ frame ∈ dates, frame.1.frameId = doc.frameId → ∀ old ∈ dates,
    old.1.frameId ∈ doc.seen → old.1.createdAt.toInt ≤ frame.1.createdAt.toInt
  attained : ∀ doc ∈ declared, ∀ frame ∈ dates, frame.1.frameId = doc.frameId →
    frame.1.createdAt = 0 ∨ ∃ old ∈ dates, old.1.frameId ∈ doc.seen ∧
      old.1.createdAt = frame.1.createdAt
  sees : ∀ doc ∈ declared, ∀ frame ∈ dates, frame.2 = .active → frame.id < doc.frameId.toNat →
    frame.1.frameId ∈ doc.seen

variable {dates : List DatedFrame} {next : Nat} {declared : List Declaration}

theorem InIdOrder.enter {entry : TimeIndexEntry} (order : InIdOrder dates next)
    (named : entry.frameId.toNat = next) (status : FrameStatus) :
    InIdOrder (dates ++ [(entry, status)]) (next + 1) where
  ascending := by
    refine List.pairwise_append.mpr ⟨order.ascending, List.pairwise_singleton _ _, ?_⟩
    intro old member new single
    obtain rfl := List.mem_singleton.mp single
    exact (order.below old member).trans_eq named.symm
  below frame member := by
    rcases List.mem_append.mp member with old | new
    · exact Nat.lt_succ_of_lt (order.below frame old)
    · obtain rfl := List.mem_singleton.mp new
      exact named ▸ Nat.lt_succ_self next

theorem InIdOrder.strike (order : InIdOrder dates next) (wanted : Nat) (now : Int64) :
    InIdOrder (dates.map (DatedFrame.struck wanted now)) next where
  ascending := by
    refine List.pairwise_map.mpr (order.ascending.imp fun before => ?_)
    simpa using before
  below frame member := by
    obtain ⟨old, listed, rfl⟩ := List.mem_map.mp member
    simpa using order.below old listed

namespace Watermarked

/-- A frame of a user enters. -/
theorem enter (marked : Watermarked dates next declared) (entry : TimeIndexEntry)
    (named : entry.frameId.toNat = next) (dated : 0 ≤ entry.createdAt.toInt) :
    Watermarked (dates ++ [(entry, .active)]) (next + 1) declared := by
  have apart : ∀ doc ∈ declared, entry.frameId ≠ doc.frameId := fun doc member same =>
    absurd (marked.entered doc member) (same ▸ named.not_lt)
  have unseen : ∀ doc ∈ declared, entry.frameId ∉ doc.seen := fun doc member seen => by
    have before := marked.seenBefore doc member entry.frameId seen
    have entered := marked.entered doc member
    omega
  refine ⟨marked.order.enter named _, ?_, ?_, marked.seenBefore, ?_, ?_, ?_, ?_⟩
  · simpa [or_imp, forall_and, dated] using marked.dated
  · exact fun doc member => Nat.lt_succ_of_lt (marked.entered doc member)
  · intro doc member frame listed same
    rcases List.mem_append.mp listed with old | new
    · exact marked.settled doc member frame old same
    · obtain rfl := List.mem_singleton.mp new
      exact absurd same (apart doc member)
  · intro doc member frame listed same old oldListed seen
    rcases List.mem_append.mp listed with here | new
    · rcases List.mem_append.mp oldListed with oldHere | oldNew
      · exact marked.covers doc member frame here same old oldHere seen
      · obtain rfl := List.mem_singleton.mp oldNew
        exact absurd seen (unseen doc member)
    · obtain rfl := List.mem_singleton.mp new
      exact absurd same (apart doc member)
  · intro doc member frame listed same
    rcases List.mem_append.mp listed with here | new
    · refine (marked.attained doc member frame here same).imp_right ?_
      rintro ⟨old, oldListed, seen, equal⟩
      exact ⟨old, List.mem_append_left _ oldListed, seen, equal⟩
    · obtain rfl := List.mem_singleton.mp new
      exact absurd same (apart doc member)
  · intro doc member frame listed active before
    rcases List.mem_append.mp listed with here | new
    · exact marked.sees doc member frame here active before
    · obtain rfl := List.mem_singleton.mp new
      have entered := marked.entered doc member
      have here : next < doc.frameId.toNat := named ▸ before
      omega

/-- A frame is tombstoned. -/
theorem strike (marked : Watermarked dates next declared) (wanted : Nat) (now : Int64) :
    Watermarked (dates.map (DatedFrame.struck wanted now)) next declared := by
  have kept : ∀ frame ∈ dates.map (DatedFrame.struck wanted now), ∃ old ∈ dates,
      frame = old.struck wanted now ∧ frame.1.frameId = old.1.frameId ∧
        frame.1.createdAt = old.1.createdAt := by
    intro frame member
    obtain ⟨old, listed, rfl⟩ := List.mem_map.mp member
    exact ⟨old, listed, rfl, UInt64.toNat_inj.mp (old.struck_id wanted now), by simp⟩
  refine ⟨marked.order.strike wanted now, ?_, marked.entered, marked.seenBefore, ?_, ?_, ?_, ?_⟩
  · intro frame member
    obtain ⟨old, listed, _, _, dated⟩ := kept frame member
    exact dated ▸ marked.dated old listed
  · intro doc member frame listed same active
    obtain ⟨old, oldListed, rfl, named, _⟩ := kept frame listed
    have whole := DatedFrame.struck_active active
    rw [whole] at same active ⊢
    exact marked.settled doc member old oldListed same active
  · intro doc member frame listed same other otherListed seen
    obtain ⟨first, firstListed, _, firstNamed, firstDated⟩ := kept frame listed
    obtain ⟨second, secondListed, _, secondNamed, secondDated⟩ := kept other otherListed
    rw [firstDated, secondDated]
    exact marked.covers doc member first firstListed (firstNamed ▸ same) second secondListed
      (secondNamed ▸ seen)
  · intro doc member frame listed same
    obtain ⟨old, oldListed, _, named, dated⟩ := kept frame listed
    rw [dated]
    refine (marked.attained doc member old oldListed (named ▸ same)).imp_right ?_
    rintro ⟨other, otherListed, seen, equal⟩
    refine ⟨other.struck wanted now, List.mem_map_of_mem otherListed, ?_, by simpa using equal⟩
    rw [UInt64.toNat_inj.mp (other.struck_id wanted now)]
    exact seen
  · intro doc member frame listed active before
    obtain ⟨old, oldListed, rfl, _, _⟩ := kept frame listed
    have whole := DatedFrame.struck_active active
    rw [whole] at active before ⊢
    exact marked.sees doc member old oldListed active before

/-- A doc enters, dated by the frames that are active. -/
theorem declare (marked : Watermarked dates next declared) {entry : TimeIndexEntry}
    (named : entry.frameId.toNat = next) (created : entry.createdAt = latestOf dates)
    (updated : entry.updatedAt = entry.createdAt) :
    Watermarked (dates ++ [(entry, .active)]) (next + 1)
      (declared ++ [⟨entry.frameId, (activeDates dates).map TimeIndexEntry.frameId⟩]) := by
  have user := marked.enter entry named (created ▸ latestOf_nonneg dates)
  have old : ∀ frame ∈ dates ++ [(entry, FrameStatus.active)],
      frame.1.frameId ∈ (activeDates dates).map TimeIndexEntry.frameId →
      frame ∈ dates ∧ frame.2 = .active := by
    intro frame member seen
    obtain ⟨other, active, same⟩ := List.mem_map.mp seen
    have otherListed := mem_activeDates.mp active
    have equal := find_of_mem DatedFrame.id user.order.ascending member
    have otherFound := find_of_mem DatedFrame.id user.order.ascending
      (List.mem_append_left [(entry, .active)] otherListed)
    have ids : DatedFrame.id (other, .active) = frame.id := congrArg UInt64.toNat same
    rw [ids, equal] at otherFound
    obtain rfl := Option.some.inj otherFound
    exact ⟨otherListed, rfl⟩
  have itself : ∀ frame ∈ dates ++ [(entry, FrameStatus.active)],
      frame.1.frameId = entry.frameId → frame = (entry, .active) := by
    intro frame member same
    rcases List.mem_append.mp member with here | new
    · have below := marked.order.below frame here
      have equal : frame.id = next := (congrArg UInt64.toNat same).trans named
      omega
    · exact List.mem_singleton.mp new
  refine ⟨user.order, user.dated, ?_, ?_, ?_, ?_, ?_, ?_⟩
  · simpa [or_imp, forall_and, named] using user.entered
  · refine List.forall_mem_append.mpr ⟨marked.seenBefore, ?_⟩
    intro doc member frameId seen
    obtain rfl := List.mem_singleton.mp member
    obtain ⟨other, active, rfl⟩ := List.mem_map.mp seen
    exact (marked.order.below _ (mem_activeDates.mp active)).trans_eq named.symm
  · refine List.forall_mem_append.mpr ⟨user.settled, ?_⟩
    intro doc member frame listed same _
    obtain rfl := List.mem_singleton.mp member
    obtain rfl := itself frame listed same
    exact updated
  · refine List.forall_mem_append.mpr ⟨user.covers, ?_⟩
    intro doc member frame listed same other otherListed seen
    obtain rfl := List.mem_singleton.mp member
    obtain rfl := itself frame listed same
    obtain ⟨here, active⟩ := old other otherListed seen
    exact created ▸ le_latestOf here active
  · refine List.forall_mem_append.mpr ⟨user.attained, ?_⟩
    intro doc member frame listed same
    obtain rfl := List.mem_singleton.mp member
    obtain rfl := itself frame listed same
    rw [created]
    refine (latestOf_attained dates).imp_right ?_
    rintro ⟨⟨other, _⟩, otherListed, rfl, equal⟩
    exact ⟨_, List.mem_append_left _ otherListed,
      List.mem_map_of_mem (mem_activeDates.mpr otherListed), equal⟩
  · refine List.forall_mem_append.mpr ⟨user.sees, ?_⟩
    rintro doc member ⟨other, _⟩ listed rfl before
    obtain rfl := List.mem_singleton.mp member
    rcases List.mem_append.mp listed with here | new
    · exact List.mem_map_of_mem (mem_activeDates.mpr here)
    · obtain ⟨rfl, _⟩ := Prod.mk.inj (List.mem_singleton.mp new)
      exact absurd before (lt_irrefl _)

end Watermarked

/-! ### Declarations -/

theorem ensureSchemaCollection_dates (now : Int64) :
    Keeps (HasDates dates next) (ensureSchemaCollection now) := by
  refine keeps_bind keeps_get fun handle => ?_
  split
  · exact keeps_pure _
  · exact keeps_bind (fallible_keeps _) fun _ => hasDates_overlooks.keeps_createCollectionAt nofun _ _

/-- Frames under old ids are no declarations. -/
theorem filter_fresh {after : List DatedFrame}
    (same : after.map DatedFrame.id = dates.map DatedFrame.id) :
    (after.filter fun frame => ∀ old ∈ dates, old.id ≠ frame.id) = [] := by
  rw [List.filter_eq_nil_iff]
  intro frame member fresh
  have listed : frame.id ∈ dates.map DatedFrame.id := same ▸ List.mem_map_of_mem member
  obtain ⟨old, oldListed, equal⟩ := List.mem_map.mp listed
  exact of_decide_eq_true fresh old oldListed equal

theorem declarations_none {after : List DatedFrame}
    (same : after.map DatedFrame.id = dates.map DatedFrame.id) : declarations dates after = [] := by
  rw [declarations, filter_fresh same, List.map_nil]

theorem declarations_one {after : List DatedFrame} (order : InIdOrder after next)
    (same : after.map DatedFrame.id = dates.map DatedFrame.id) {entry : TimeIndexEntry}
    (named : entry.frameId.toNat = next) :
    declarations dates (after ++ [(entry, .active)]) =
      [⟨entry.frameId, (activeDates after).map TimeIndexEntry.frameId⟩] := by
  have fresh : ∀ old ∈ dates, old.id ≠ DatedFrame.id (entry, .active) := by
    intro old member equal
    have listed : old.id ∈ after.map DatedFrame.id := same ▸ List.mem_map_of_mem member
    obtain ⟨frame, frameListed, frameSame⟩ := List.mem_map.mp listed
    have below := order.below frame frameListed
    have here : DatedFrame.id (entry, .active) = next := named
    omega
  have seen : after.filter (fun other => other.2 = .active ∧
      other.id < DatedFrame.id (entry, .active)) = after.filter fun other => other.2 = .active := by
    refine List.filter_congr fun other member => ?_
    have below : other.id < DatedFrame.id (entry, .active) :=
      (order.below other member).trans_eq named.symm
    simp [below]
  rw [declarations, List.filter_append, filter_fresh same, List.nil_append, List.filter_singleton,
    decide_eq_true fresh, cond_true, List.map_singleton, List.filter_append, seen,
    List.filter_singleton, decide_eq_false fun both => lt_irrefl _ both.2, cond_false,
    List.append_nil, activeDates, List.map_map]
  rfl

/-- After a declaration, whether it succeeded or not: a frame may be struck out, and then the doc
may have entered with the watermark of that moment. -/
def Synced (dates : List DatedFrame) (next : Nat) (handle : ValiseFile) : Prop :=
  ∃ between, (between = dates ∨ ∃ wanted now, between = dates.map (DatedFrame.struck wanted now)) ∧
    (HasDates between next handle ∨ ∃ entry : TimeIndexEntry, entry.frameId.toNat = next ∧
      entry.createdAt = latestOf between ∧ entry.updatedAt = entry.createdAt ∧
      HasDates (between ++ [(entry, .active)]) (next + 1) handle)

theorem deleteReplaced_dates (order : InIdOrder dates next) (now : Int64)
    (replace : Option FrameId) :
    Meets (HasDates dates next) (deleteReplaced now replace)
      (fun _ handle => ∃ between, (between = dates ∨
        ∃ wanted now, between = dates.map (DatedFrame.struck wanted now)) ∧
        HasDates between next handle)
      (HasDates dates next) := by
  cases replace with
  | none => exact meets_pure _ fun _ holds => ⟨dates, .inl rfl, holds⟩
  | some frameId =>
      exact (deleteFrame_dates order frameId now).weaken (fun _ holds => holds)
        (fun _ _ holds => ⟨_, .inr ⟨frameId.toNat, now, rfl⟩, holds⟩) fun _ holds => holds

theorem applySync_dates (order : InIdOrder dates next) (coll : String) (newDoc : Result Bytes)
    (plan : DocSync FrameId) (now : Int64) {handle : ValiseFile} (holds : HasDates dates next handle) :
    Synced dates next (applySync coll newDoc plan now handle).2 := by
  have same : ∀ handle, HasDates dates next handle → Synced dates next handle :=
    fun _ holds => ⟨dates, .inl rfl, .inl holds⟩
  have either : Meets (HasDates dates next) (applySync coll newDoc plan now)
      (fun _ => Synced dates next) (Synced dates next) := by
    cases plan with
    | upToDate => exact meets_pure _ same
    | write replace =>
        refine meets_bind ((ensureSchemaCollection_dates now).meets.weaken (fun _ holds => holds)
          (fun _ _ holds => holds) same) fun collectionId => ?_
        refine meets_bind ((deleteReplaced_dates order now replace).weaken (fun _ holds => holds)
          (fun _ _ holds => holds) same) fun _ => ?_
        intro handle struck
        obtain ⟨between, kind, holds⟩ := struck
        have ordered : InIdOrder between next := by
          rcases kind with rfl | ⟨wanted, at', rfl⟩
          · exact order
          · exact order.strike wanted at'
        have synced : ∀ handle, HasDates between next handle → Synced dates next handle :=
          fun _ holds => ⟨between, kind, .inl holds⟩
        have rest : Meets (HasDates between next) (do
            let payload ← lift newDoc
            let handle ← Command.get
            let createdAt := watermark handle
            let _ ← putFrame ⟨collectionId, .document, payload, some createdAt, some createdAt,
              none, none, none, some (docUri coll)⟩ now
            return ()) (fun _ => Synced dates next) (Synced dates next) := by
          refine meets_bind (meets_lift (fun _ _ _ holds => holds) synced) fun payload => ?_
          refine meets_get_bind fun read here => meets_bind (m := fun _ => Synced dates next) ?_
            fun _ => meets_pure _ fun _ holds => holds
          have put : Synced dates next (putFrame ⟨collectionId, .document, payload,
              some (watermark read), some (watermark read), none, none, none, some (docUri coll)⟩
              now read).2 := by
            rcases putFrame_dates ordered _ now here with left | ⟨frameId, named, entered⟩
            · exact synced _ left
            · refine ⟨between, kind, .inr ⟨_, named, ?_, rfl, entered⟩⟩
              rw [← here.1]
              exact watermark_eq read
          rintro _ rfl
          split <;> simp_all
        exact rest handle holds
  exact either.final holds

/-! ### Every run -/

namespace SchemaSession

def Marked (session : SchemaSession) : Prop :=
  Watermarked session.handle.dates (session.handle.idAllocator.counter .frame) session.declared

theorem Starts.marked {session : SchemaSession} (starts : session.Starts) : session.Marked := by
  obtain ⟨⟨contract, fresh⟩, none⟩ := starts
  rw [Marked, fresh, none]
  exact ⟨⟨List.Pairwise.nil, nofun⟩, nofun, nofun, nofun, nofun, nofun, nofun, nofun⟩

theorem held {handle : ValiseFile} (marked : Watermarked dates next declared)
    (holds : HasDates dates next handle) : (⟨handle, declared⟩ : SchemaSession).Marked := by
  rw [Marked, holds.1, holds.2]
  exact marked

theorem Marked.call {session : SchemaSession} (marked : session.Marked) (analyze : Analyze)
    (faults : IoPoint → Bool) {operation : Operation} (dated : operation.FromEpoch) :
    ({ session with handle := operation.run analyze (session.handle.withFaults faults) } :
      SchemaSession).Marked := by
  have here : HasDates session.handle.dates (session.handle.idAllocator.counter .frame)
      (session.handle.withFaults faults) := ⟨rfl, rfl⟩
  by_cases touches : operation.EntersOrStrikes
  · cases operation with
    | putFrame input now =>
        rcases putFrame_dates marked.order input now here with same | ⟨frameId, named, entered⟩
        · exact held marked same
        · exact held (Watermarked.enter marked (input.frame frameId now).indexEntry named dated) entered
    | deleteFrame frameId now =>
        have either := ((deleteFrame_dates marked.order frameId now).weaken (fun _ holds => holds)
          (fun _ _ holds => held (Watermarked.strike marked frameId.toNat now) holds)
          fun _ holds => held marked holds).final here
        exact either
    | _ => exact touches.elim
  · exact held marked (@Operation.run_ofFrames (fun view => view.1 = _ ∧ view.2.2 = _) analyze
      operation touches _ here)

theorem Marked.declare {session : SchemaSession} (marked : session.Marked)
    (faults : IoPoint → Bool) (coll : String) (newDoc : Result Bytes) (plan : DocSync FrameId)
    (now : Int64) : (session.declare faults coll newDoc plan now).Marked := by
  have here : HasDates session.handle.dates (session.handle.idAllocator.counter .frame)
      (session.handle.withFaults faults) := ⟨rfl, rfl⟩
  obtain ⟨between, kind, after⟩ := applySync_dates marked.order coll newDoc plan now here
  have kept : Watermarked between (session.handle.idAllocator.counter .frame) session.declared ∧
      between.map DatedFrame.id = session.handle.dates.map DatedFrame.id := by
    rcases kind with rfl | ⟨wanted, date, rfl⟩
    · exact ⟨marked, rfl⟩
    · refine ⟨marked.strike wanted date, ?_⟩
      rw [List.map_map]
      exact List.map_congr_left fun frame _ => frame.struck_id wanted date
  rcases after with same | ⟨entry, named, created, updated, entered⟩
  · rw [Marked, SchemaSession.declare, ValiseFile.ran, same.1, same.2, declarations_none kept.2,
      List.append_nil]
    exact kept.1
  · rw [Marked, SchemaSession.declare, ValiseFile.ran, entered.1, entered.2,
      declarations_one kept.1.order kept.2 named]
    exact kept.1.declare named created updated

theorem reachable_marked {analyze : Analyze} {session : SchemaSession}
    (reached : SchemaReachable analyze session) : session.Marked := by
  refine reached.invariant (fun _ => Starts.marked) ?_
  intro before after marked step
  cases step with
  | call faults dated => exact marked.call analyze faults dated
  | declare faults coll newDoc plan now => exact marked.declare faults coll newDoc plan now

/-! ### What the docs add -/

theorem withoutDocs_entries (session : SchemaSession) :
    session.withoutDocs.activeFrames.map FrameDesc.indexEntry =
      (session.handle.activeFrames.map FrameDesc.indexEntry).filter fun entry =>
        ¬session.IsDoc entry.frameId := by
  have table : session.withoutDocs.tables .frame =
      (session.handle.tables .frame).filter fun frame => ¬session.IsDoc frame.frameId := by
    simp only [withoutDocs, ValiseFile.setTable, Function.update_self]
  rw [List.filter_map, ValiseFile.activeFrames, ValiseFile.activeFrames, table,
    List.filter_filter, List.filter_filter]
  congr 1
  exact List.filter_congr fun frame _ => Bool.and_comm _ _

theorem mem_activeFrames {handle : ValiseFile} {frame : FrameDesc}
    (member : frame ∈ handle.activeFrames) : (frame.indexEntry, FrameStatus.active) ∈ handle.dates := by
  obtain ⟨listed, active⟩ := List.mem_filter.mp member
  refine List.mem_map.mpr ⟨frame, listed, ?_⟩
  rw [FrameDesc.dated, of_decide_eq_true active]

theorem activeFrame_of_mem {handle : ValiseFile} {entry : TimeIndexEntry}
    (member : (entry, FrameStatus.active) ∈ handle.dates) :
    ∃ frame ∈ handle.activeFrames, frame.indexEntry = entry := by
  obtain ⟨frame, listed, same⟩ := List.mem_map.mp member
  obtain ⟨named, active⟩ := Prod.mk.inj same
  exact ⟨frame, List.mem_filter.mpr ⟨listed, decide_eq_true active⟩, named⟩

theorem Marked.not_overtaken {session : SchemaSession} (marked : session.Marked)
    (ascend : DatesAscend (session.handle.activeFrames.map FrameDesc.indexEntry)) :
    ¬session.Overtaken := by
  rintro ⟨declaration, declared, doc, docActive, named, frame, active, _, later, old, oldListed, seen,
    older⟩
  have covered := marked.covers declaration declared _ (mem_activeFrames docActive) named old.dated
    (List.mem_map_of_mem oldListed) seen
  have order : doc.frameId.toNat < frame.frameId.toNat := named ▸ later
  have after := ascend _ (List.mem_map_of_mem docActive) _ (List.mem_map_of_mem active) order
  have low : old.createdAt.toInt ≤ doc.createdAt.toInt := covered
  have high : doc.createdAt.toInt ≤ frame.createdAt.toInt := after
  omega

/-- Between two frames of users the dates ascend already; before a doc every active frame is seen. -/
theorem Marked.ascend {session : SchemaSession} (marked : session.Marked)
    (users : DatesAscend (session.withoutDocs.activeFrames.map FrameDesc.indexEntry))
    (free : ¬session.Overtaken) :
    DatesAscend (session.handle.activeFrames.map FrameDesc.indexEntry) := by
  intro first firstListed second secondListed before
  have firstHere := firstListed
  have secondHere := secondListed
  rw [activeFrames_entries, mem_activeDates] at firstHere secondHere
  by_cases secondDoc : session.IsDoc second.frameId
  · obtain ⟨doc, declared, named⟩ := secondDoc
    have seen := marked.sees doc declared _ firstHere rfl (named ▸ before)
    exact marked.covers doc declared _ secondHere named.symm _ firstHere seen
  by_cases firstDoc : session.IsDoc first.frameId
  · obtain ⟨doc, declared, named⟩ := firstDoc
    rcases marked.attained doc declared _ firstHere named.symm with zero | ⟨old, oldListed, seen, same⟩
    · have nonneg := marked.dated _ secondHere
      have first0 : first.createdAt.toInt = 0 := by
        rw [show first.createdAt = 0 from zero]
        rfl
      have second0 : 0 ≤ second.createdAt.toInt := nonneg
      omega
    · by_contra older
      obtain ⟨docFrame, docActive, rfl⟩ := activeFrame_of_mem firstHere
      obtain ⟨frame, active, rfl⟩ := activeFrame_of_mem secondHere
      obtain ⟨oldFrame, oldHere, rfl⟩ := List.mem_map.mp oldListed
      refine free ⟨doc, declared, docFrame, docActive, named.symm, frame, active, secondDoc,
        named ▸ before, oldFrame, oldHere, seen, ?_⟩
      have equal : oldFrame.createdAt = docFrame.createdAt := same
      have younger : ¬docFrame.createdAt.toInt ≤ frame.createdAt.toInt := older
      rw [equal]
      omega
  · refine users first ?_ second ?_ before
    · rw [withoutDocs_entries, List.mem_filter]
      exact ⟨firstListed, decide_eq_true firstDoc⟩
    · rw [withoutDocs_entries, List.mem_filter]
      exact ⟨secondListed, decide_eq_true secondDoc⟩

/-- Where the frames of the users alone are accepted, those with the docs are accepted just when no
frame after a doc is older than what the doc has seen, and the columns still fit. -/
theorem schemaDocs_admit_iff {analyze : Analyze} {session : SchemaSession}
    (reached : SchemaReachable analyze session) (accepted : Accepts session.withoutDocs) :
    Accepts session.handle ↔
      ¬session.Overtaken ∧ IndexFits session.handle.timeIndexEntries := by
  have marked := reachable_marked reached
  have dated : ∀ entry ∈ session.handle.activeFrames.map FrameDesc.indexEntry,
      0 ≤ entry.createdAt.toInt := by
    intro entry member
    rw [activeFrames_entries, mem_activeDates] at member
    exact marked.dated _ member
  have usersDated : ∀ entry ∈ session.withoutDocs.activeFrames.map FrameDesc.indexEntry,
      0 ≤ entry.createdAt.toInt := by
    intro entry member
    rw [withoutDocs_entries] at member
    exact dated entry (List.mem_filter.mp member).1
  rw [Accepts, timeIndexEntries_eq, sortedIndex_isOk usersDated] at accepted
  rw [Accepts, timeIndexEntries_eq, sortedIndex_isOk dated]
  obtain ⟨usersAscend, usersUpdate, _⟩ := accepted
  constructor
  · rintro ⟨ascend, _, fits⟩
    exact ⟨marked.not_overtaken ascend, fits⟩
  · rintro ⟨free, fits⟩
    refine ⟨marked.ascend usersAscend free, fun entry member => ?_, fits⟩
    by_cases isDoc : session.IsDoc entry.frameId
    · obtain ⟨doc, declared, named⟩ := isDoc
      rw [activeFrames_entries, mem_activeDates] at member
      have updated := marked.settled doc declared _ member named.symm rfl
      have equal : entry.updatedAt = entry.createdAt := updated
      rw [UpdateFits, equal, Int.sub_self]
      exact ⟨by decide, by decide⟩
    · refine usersUpdate entry ?_
      rw [withoutDocs_entries, List.mem_filter]
      exact ⟨member, decide_eq_true isDoc⟩

/-! ### A frame older than the doc -/

def called (session : SchemaSession) (operation : Operation) : SchemaSession :=
  { session with handle := operation.run noTokens (session.handle.withFaults noFaults) }

theorem reachable_called {session : SchemaSession} (operation : Operation)
    (dated : operation.FromEpoch) (reached : SchemaReachable noTokens session) :
    SchemaReachable noTokens (session.called operation) :=
  .step reached (.call noFaults dated)

def putNote (createdAt : Int64) : Operation :=
  .putFrame ⟨1, .document, [1], some createdAt, none, none, none, none, none⟩ 200

/-- The frame that dated the doc is deleted, and an older one follows. -/
def olderNote : SchemaSession :=
  (((((⟨{}, []⟩ : SchemaSession).called (.createCollectionAt "notes" 0)).called (putNote 100)).declare
    noFaults "notes" (.ok [2]) (.write none) 200).called (.deleteFrame 1 200)).called (putNote 50)

/-- The same calls, and no declaration. -/
def olderNoteAlone : SchemaSession :=
  ((((⟨{}, []⟩ : SchemaSession).called (.createCollectionAt "notes" 0)).called (putNote 100)).called
    (.deleteFrame 1 200)).called (putNote 50)

theorem olderNote_rejected :
    SchemaReachable noTokens olderNote ∧ Accepts olderNote.withoutDocs ∧
      ¬Accepts olderNote.handle ∧
      (ValiseFile.commit olderNote.handle).1 = .err (.format
        "TimeIndexSegment frame_ids must be monotone within the same created_at") ∧
      (ValiseFile.commit olderNoteAlone.handle).1 = .ok true := by
  have reached : SchemaReachable noTokens olderNote := by
    refine reachable_called (putNote 50) (show (0 : Int) ≤ 50 by decide)
      (reachable_called (.deleteFrame 1 200) trivial (.step ?_ (.declare noFaults _ _ _ _)))
    exact reachable_called (putNote 100) (show (0 : Int) ≤ 100 by decide)
      (reachable_called (.createCollectionAt "notes" 0) trivial (.start ⟨⟨_, rfl⟩, rfl⟩))
  have alone : encodeTimeIndexSegment olderNote.withoutDocs.timeIndexEntries =
      .ok olderNote.withoutDocs.timeIndexEntries := by decide +kernel
  have rejected : encodeTimeIndexSegment olderNote.handle.timeIndexEntries = .err (.format
      "TimeIndexSegment frame_ids must be monotone within the same created_at") := by
    decide +kernel
  refine ⟨reached, ⟨_, alone⟩, ?_, by decide +kernel, by decide +kernel⟩
  rintro ⟨index, accepted⟩
  rw [rejected] at accepted
  exact nomatch accepted

/-- Without the deletion the users' frames alone are out of order; in order, the doc is no obstacle. -/
def youngerNote : SchemaSession :=
  ((((⟨{}, []⟩ : SchemaSession).called (.createCollectionAt "notes" 0)).called (putNote 100)).declare
    noFaults "notes" (.ok [2]) (.write none) 200).called (putNote 150)

theorem youngerNote_admitted :
    Accepts youngerNote.handle ↔
      ¬youngerNote.Overtaken ∧ IndexFits youngerNote.handle.timeIndexEntries :=
  schemaDocs_admit_iff
    (reachable_called (putNote 150) (show (0 : Int) ≤ 150 by decide)
      (.step (reachable_called (putNote 100) (show (0 : Int) ≤ 100 by decide)
        (reachable_called (.createCollectionAt "notes" 0) trivial (.start ⟨⟨_, rfl⟩, rfl⟩)))
        (.declare noFaults "notes" (.ok [2]) (.write none) 200)))
    ⟨_, show encodeTimeIndexSegment youngerNote.withoutDocs.timeIndexEntries =
      .ok youngerNote.withoutDocs.timeIndexEntries by decide +kernel⟩

end SchemaSession

end Valise
