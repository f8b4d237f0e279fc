import Valise.OverlookedSteps

/-!
Which calls change the dates of the frames: a put enters one frame, a deletion touches one, and
every other call, a commit included, leaves all of them as they are.
-/

namespace Valise

open ByteLists Commands Command Outcomes SortedTables

def HasDates (dates : List DatedFrame) (next : Nat) (handle : ValiseFile) : Prop :=
  handle.dates = dates ∧ handle.idAllocator.counter .frame = next

/-- The frames as the time index and the scorers see them, and the next id. -/
def ValiseFile.frameView (handle : ValiseFile) : List DatedFrame × List FrameStub × Nat :=
  (handle.dates, handle.frameStubs, handle.idAllocator.counter .frame)

/-- The property is one of the frames. -/
abbrev OfFrames (seen : List DatedFrame × List FrameStub × Nat → Prop) (handle : ValiseFile) : Prop :=
  seen handle.frameView

variable {seen : List DatedFrame × List FrameStub × Nat → Prop} {dates : List DatedFrame} {next : Nat}

/-- Only the frames are watched. -/
theorem ofFrames_overlooks : Overlooks (· = .frame) (OfFrames seen) := by
  intro before after alike holds
  have same : after.frameView = before.frameView := by
    rw [ValiseFile.frameView, alike.frames rfl, alike.stubs, alike.counters .frame rfl]
    rfl
  rwa [OfFrames, same]

theorem hasDates_overlooks : Overlooks (· = .frame) (HasDates dates next) :=
  @ofFrames_overlooks fun view => view.1 = dates ∧ view.2.2 = next

/-! ### The commit -/

theorem writeCollectionFilterSegment_ofFrames (body : FooterBody) (collectionId : CollectionId) :
    Keeps (OfFrames seen) (writeCollectionFilterSegment body collectionId) :=
  keeps_bind keeps_get fun _ => keeps_bind (keeps_lift _) fun _ => keeps_bind (keeps_lift _) fun _ =>
    keeps_bind (ofFrames_overlooks.keeps_appendRegisteredSegment nofun _ _ _ _) fun _ =>
    keeps_bind (keeps_modify fun _ holds => holds) fun _ => keeps_pure _

theorem writeTimeIndexSegment_ofFrames (body : FooterBody) :
    Keeps (OfFrames seen) (writeTimeIndexSegment body) := by
  refine keeps_bind keeps_get fun handle => keeps_ite (keeps_pure _) ?_
  exact keeps_bind (keeps_lift _) fun _ =>
    keeps_bind (ofFrames_overlooks.keeps_appendRegisteredSegment nofun _ _ _ _) fun _ =>
    keeps_bind (keeps_modify fun _ holds => holds) fun _ => keeps_pure _

theorem commitPhaseWrites_ofFrames : Keeps (OfFrames seen) ValiseFile.commitPhaseWrites := by
  have overlooks := @ofFrames_overlooks seen
  refine keeps_bind (fallible_keeps _) fun _ =>
    keeps_bind (overlooks.keeps_flushPendingPayloads nofun) fun _ =>
    keeps_bind (overlooks.keeps_flushPendingVectorBatches nofun) fun _ =>
    keeps_bind ?_ fun _ => keeps_bind (fallible_keeps _) fun _ => keeps_bind (fallible_keeps _) fun _ =>
    keeps_bind (fallible_keeps _) fun _ => keeps_bind (fallible_keeps _) fun _ =>
    keeps_bind (fallible_keeps _) fun _ => keeps_bind (keeps_modify fun _ holds => holds) fun _ =>
    keeps_pure _
  exact keeps_bind keeps_get fun _ =>
    keeps_bind (overlooks.keeps_flushPendingTextIndexes nofun _) fun _ =>
    keeps_bind (keeps_foldEach (overlooks.keeps_flushCatalogTable nofun) _ _) fun _ =>
    keeps_bind keeps_get fun _ => keeps_bind (keeps_foldEach writeCollectionFilterSegment_ofFrames _ _) fun _ =>
    keeps_bind (writeTimeIndexSegment_ofFrames _) fun _ =>
    keeps_bind (overlooks.keeps_flushSegmentRegistry nofun _) fun _ => keeps_bind keeps_get fun _ =>
    keeps_pure _

theorem commitPhasePublish_ofFrames (prepared : PreparedCommit) :
    Keeps (OfFrames seen) (ValiseFile.commitPhasePublish prepared) :=
  keeps_bind (keeps_modify fun _ holds => holds) fun _ => keeps_bind (fallible_keeps _) fun _ =>
    keeps_bind keeps_get fun _ => keeps_ite (keeps_lift _) (keeps_pure _)

theorem commit_ofFrames : Keeps (OfFrames seen) ValiseFile.commit := by
  refine keeps_bind keeps_get fun handle => keeps_ite ?_ (keeps_pure _)
  exact keeps_bind commitPhaseWrites_ofFrames fun _ => keeps_bind (fallible_keeps _) fun _ =>
    keeps_bind (commitPhasePublish_ofFrames _) fun _ => keeps_pure _

/-- The other calls leave the frames as they are. -/
def Operation.EntersOrStrikes : Operation → Prop
  | .putFrame _ _ => True
  | .deleteFrame _ _ => True
  | _ => False

theorem Operation.run_ofFrames (analyze : Analyze) {operation : Operation}
    (other : ¬operation.EntersOrStrikes) {handle : ValiseFile} (holds : OfFrames seen handle) :
    OfFrames seen (operation.run analyze handle) := by
  have overlooks := @ofFrames_overlooks seen
  cases operation with
  | createCollectionAt name createdAt =>
      exact overlooks.keeps_createCollectionAt nofun name createdAt _ holds
  | registerAnalyzer desc => exact overlooks.keeps_registerAnalyzer nofun desc _ holds
  | registerFieldSchema desc => exact overlooks.keeps_registerFieldSchema nofun desc _ holds
  | registerRetrievalProfile desc => exact overlooks.keeps_registerRetrievalProfile nofun desc _ holds
  | registerFusionProfile desc => exact overlooks.keeps_registerFusionProfile nofun desc _ holds
  | registerEmbeddingSpace spec => exact overlooks.keeps_registerEmbeddingSpace nofun spec _ holds
  | registerTextSpace desc => exact overlooks.keeps_registerTextSpace nofun desc _ holds
  | registerCodec params => exact overlooks.keeps_registerCodec nofun nofun params _ holds
  | putFrame input now => exact absurd trivial other
  | deleteFrame frameId now => exact absurd trivial other
  | indexFrameText frameId textSpaceId =>
      exact overlooks.keeps_indexFrameText analyze frameId textSpaceId _ holds
  | putVector input => exact overlooks.keeps_putVector nofun nofun input _ holds
  | deleteVector vectorId => exact overlooks.keeps_deleteVector nofun vectorId _ holds
  | commit => exact commit_ofFrames _ holds

/-! ### Puts and deletions -/

/-- A tombstone keeps the id and the date of its frame. -/
def DatedFrame.struck (wanted : Nat) (now : Int64) (frame : DatedFrame) : DatedFrame :=
  if frame.id = wanted then ({ frame.1 with updatedAt := now }, .tombstoned) else frame

@[simp] theorem DatedFrame.struck_id (wanted : Nat) (now : Int64) (frame : DatedFrame) :
    (frame.struck wanted now).id = frame.id := by
  unfold DatedFrame.struck
  split <;> rfl

@[simp] theorem DatedFrame.struck_createdAt (wanted : Nat) (now : Int64) (frame : DatedFrame) :
    (frame.struck wanted now).1.createdAt = frame.1.createdAt := by
  unfold DatedFrame.struck
  split <;> rfl

theorem DatedFrame.struck_active {wanted : Nat} {now : Int64} {frame : DatedFrame}
    (active : (frame.struck wanted now).2 = .active) : frame.struck wanted now = frame := by
  unfold DatedFrame.struck at active ⊢
  split
  · rename_i hit
    simp [hit] at active
  · rfl

/-- Frames are kept in the order of their ids, and the next id is above them all. -/
structure InIdOrder (dates : List DatedFrame) (next : Nat) : Prop where
  ascending : Ascending DatedFrame.id dates
  below : ∀ frame ∈ dates, frame.id < next

theorem InIdOrder.table {handle : ValiseFile} (order : InIdOrder dates next)
    (holds : HasDates dates next handle) :
    Ascending (CatalogTableKind.rowId .frame) (handle.tables .frame) := by
  have ascending := order.ascending
  rw [← holds.1, Ascending, ValiseFile.dates, List.pairwise_map] at ascending
  exact ascending

/-- The dates before, or those with the new frame. -/
def MayHaveEntered (dates : List DatedFrame) (next : Nat) (input : PutFrame) (now : Int64)
    (handle : ValiseFile) : Prop :=
  HasDates dates next handle ∨ ∃ frameId : FrameId, frameId.toNat = next ∧
    HasDates (dates ++ [((input.frame frameId now).indexEntry, .active)]) (next + 1) handle

theorem HasDates.enterFrame {handle : ValiseFile} (order : InIdOrder dates next)
    (holds : HasDates dates next handle) {ids : IdAllocator} (frame : FrameDesc)
    (took : handle.idAllocator.Took ids .frame frame.frameId.toNat) (payload : Bytes)
    (uri : Option Bytes) :
    HasDates (dates ++ [frame.dated]) (next + 1) (handle.enterFrame ids frame payload uri) := by
  have named : frame.frameId.toNat = next := took.was.symm.trans holds.2
  have counted : (handle.enterFrame ids frame payload uri).idAllocator = ids := by
    cases uri <;> rfl
  refine ⟨?_, by rw [counted, took.next, named]⟩
  have entered : ∀ buffered : ValiseFile, buffered.tables = handle.tables →
      (buffered.upsertFrame frame).dates = dates ++ [frame.dated] := by
    intro buffered same
    simp only [ValiseFile.dates, ValiseFile.upsertFrame, ValiseFile.upsertRow, ValiseFile.setTable,
      Function.update_self, same]
    rw [upsert_last, List.map_append, ← holds.1]
    · rfl
    · intro old member
      have listed : old.dated ∈ dates := by
        rw [← holds.1]
        exact List.mem_map_of_mem member
      have below : old.frameId.toNat < next := order.below _ listed
      exact below.trans_eq named.symm
  refine entered _ ?_
  cases uri <;> rfl

/-- What a put can do to the frames: nothing, or enter the frame under the next id. -/
theorem putFrame_enters {before after : ValiseFile → Prop} (input : PutFrame) (now : Int64)
    (overlooks : Overlooks (· = .frame) after)
    (takes : ∀ handle ids, handle.idAllocator.Took ids .frame (handle.idAllocator.counter .frame) →
      before handle → ∀ frameId : FrameId, frameId.toNat = handle.idAllocator.counter .frame →
      after (handle.enterFrame ids (input.frame frameId now) input.payload input.uri)) :
    Meets before (putFrame input now) (fun _ => after) fun handle => before handle ∨ after handle := by
  refine meets_get_bind fun read holds => ?_
  have here : ∀ handle, handle = read → before handle ∨ after handle := by
    rintro _ rfl
    exact .inl holds
  refine meets_bind (meets_check here) fun _ => meets_bind (meets_fallible here) fun _ => ?_
  refine meets_bind ((allocateFrameId_takes _).weaken (fun _ same => same)
    (fun _ _ taken => taken) here) fun frameId => ?_
  refine meets_modify_bind (meets_modify_bind (meets_modify_bind ?_))
  refine meets_bind (m := fun _ => after) ?_ fun _ => meets_pure _ fun _ entered => entered
  intro handle held
  obtain ⟨_, ⟨_, ⟨_, ⟨earlier, ids, rfl, took, rfl⟩, rfl⟩, rfl⟩, rfl⟩ := held
  have named : frameId.toNat = earlier.idAllocator.counter .frame := took.was.symm
  have entered := takes earlier ids (named ▸ took) holds frameId named
  exact (overlooks.keeps_flushFullPayloads nofun).meets.weaken (fun _ same => same)
    (fun _ _ same => same) (fun _ same => .inr same) _ entered

theorem putFrame_dates (order : InIdOrder dates next) (input : PutFrame) (now : Int64)
    {handle : ValiseFile} (holds : HasDates dates next handle) :
    MayHaveEntered dates next input now (putFrame input now handle).2 := by
  have entered := @putFrame_enters (HasDates dates next)
    (fun handle => ∃ frameId : FrameId, frameId.toNat = next ∧
      HasDates (dates ++ [((input.frame frameId now).indexEntry, .active)]) (next + 1) handle)
    input now ?_ ?_
  · exact (entered.weaken (fun _ same => same) (fun _ _ => .inr) fun _ same => same).final holds
  · rintro before after alike ⟨frameId, named, here⟩
    exact ⟨frameId, named, hasDates_overlooks before after alike here⟩
  · intro handle ids took holds frameId named
    rw [← named] at took
    exact ⟨frameId, named.trans holds.2,
      holds.enterFrame order (input.frame frameId now) took input.payload input.uri⟩

theorem HasDates.tombstone {handle : ValiseFile} (order : InIdOrder dates next)
    (holds : HasDates dates next handle) {frameId : FrameId} {frame : FrameDesc}
    (found : handle.findFrame frameId = some frame) (now : Int64) :
    HasDates (dates.map (DatedFrame.struck frameId.toNat now)) next
      (handle.tombstoneFrame frame now) := by
  have named : frame.frameId.toNat = frameId.toNat := (find_some _ found).2
  have ascending := order.table holds
  refine ⟨?_, holds.2⟩
  simp only [ValiseFile.tombstoneFrame, ValiseFile.dates, ValiseFile.upsertFrame,
    ValiseFile.upsertRow, ValiseFile.setTable, Function.update_self]
  have replaced : find (CatalogTableKind.rowId .frame) frame.frameId.toNat (handle.tables .frame) =
      some frame := by
    rw [named]
    exact found
  rw [upsert_replaces _ _ ascending (by exact replaced), ← holds.1, ValiseFile.dates, List.map_map,
    List.map_map]
  refine List.map_congr_left fun other member => ?_
  by_cases same : other.frameId.toNat = frameId.toNat
  · have equal : other = frame := by
      have here := find_of_mem _ ascending member
      rw [show CatalogTableKind.rowId .frame other = frameId.toNat from same] at here
      exact Option.some.inj (here.symm.trans found)
    subst equal
    simp [DatedFrame.struck, DatedFrame.id, FrameDesc.dated, FrameDesc.indexEntry, named,
      CatalogTableKind.rowId]
  · simp [DatedFrame.struck, DatedFrame.id, FrameDesc.dated, FrameDesc.indexEntry, same, named,
      CatalogTableKind.rowId]

/-- What a deletion can do to the frames: nothing, or strike out an active one. -/
theorem deleteFrame_strikes {before after : ValiseFile → Prop} (frameId : FrameId) (now : Int64)
    (strikes : ∀ handle frame, before handle → handle.findFrame frameId = some frame →
      frame.status = .active → after (handle.tombstoneFrame frame now)) :
    Meets before (deleteFrame frameId now) (fun _ => after) before := by
  refine meets_get_bind fun read holds => ?_
  have here : ∀ handle, handle = read → before handle := by
    rintro _ rfl
    exact holds
  split
  · exact meets_lift (fun _ _ ok => nomatch ok) here
  · rename_i frame found
    by_cases active : frame.status = .active
    · refine meets_bind (meets_check here) fun _ => meets_bind (meets_fallible here) fun _ =>
        meets_modify_bind (meets_modify ?_)
      rintro _ ⟨_, rfl, rfl⟩
      exact strikes _ _ holds found active
    · refine meets_bind (m := fun _ _ => False) (meets_lift (fun _ _ passed => ?_) here) fun _ => ?_
      · exact absurd (Outcome.ensure_eq_ok.mp passed) active
      · exact fun _ never => never.elim

theorem deleteFrame_dates (order : InIdOrder dates next) (frameId : FrameId) (now : Int64) :
    Meets (HasDates dates next) (deleteFrame frameId now)
      (fun _ => HasDates (dates.map (DatedFrame.struck frameId.toNat now)) next)
      (HasDates dates next) :=
  deleteFrame_strikes frameId now fun _ _ holds found _ => holds.tombstone order found now

end Valise
