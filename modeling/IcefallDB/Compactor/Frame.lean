import IcefallDB.Compactor
import IcefallDB.Writer.Stage

/-!
# Files that a compaction touches

Rewriting row groups touches staged files and row groups under the compaction's own identifiers;
publishing them adds the row-index base and the checkpoint of the new sequence.
-/

namespace IcefallDB

namespace Compactor

variable {R : Type} {choices : Choices R} {nextSeq : Nat} {current : Manifest}
  {allowed : StorageEffect (File R) (File R) → Prop}

/-- Files that staging an output row group touches. -/
inductive TouchesChunk (choices : Choices R) (chunk : Nat) : String → Prop
  | staging (filename : String) : TouchesChunk choices chunk (partPath "compact" filename)
  | final {path : String} (named : RowGroupName choices chunk path) :
      TouchesChunk choices chunk path

theorem TouchesChunk.touches {chunk : Nat} {path : String} (touches : TouchesChunk choices chunk path) :
    Touches choices nextSeq current path := by
  cases touches with
  | staging filename => exact .staging (kindOf_partPath "compact" filename)
  | final named =>
      cases named with
      | data attempt => exact .data chunk attempt
      | sidecar attempt => exact .sidecar chunk attempt
      | aggregate attempt => exact .aggregate chunk attempt

theorem within_writeRowGroupPart (compactor : Compactor R) (schema : Schema) (chunk : Nat)
    (rgId : String) (rows : List R) (rowIds : List RowIdSegment) (fragmentId : Nat) :
    (compactor.writeRowGroupPart schema rgId rows rowIds fragmentId).Emits
      (StorageEffect.Within (TouchesChunk choices chunk)) := by
  refine Script.Emits.bind (Script.Emits.emit (TouchesChunk.staging _)) fun _ => ?_
  refine Script.Emits.bind (Script.emits_lift _) fun sidecar => ?_
  exact Script.Emits.bind (Script.Emits.emit (TouchesChunk.staging _)) fun _ =>
    Script.Emits.emit (TouchesChunk.staging _)

theorem within_verifyStaged (compactor : Compactor R) (schema : Schema) (chunk : Nat) (rgId : String)
    (rows : List R) (rowIds : List RowIdSegment) (fragmentId : Nat) :
    (compactor.verifyStaged schema rgId rows rowIds fragmentId).Emits
      (StorageEffect.Within (TouchesChunk choices chunk)) := by
  refine Script.Emits.bind (Writer.emits_verifyRowGroupChecksum _ _ _) fun verified => ?_
  refine Script.Emits.ite (fun _ => Script.emits_pure _) fun _ => ?_
  refine Script.Emits.bind (within_writeRowGroupPart _ _ _ _ _ _ _) fun _ => ?_
  exact Script.Emits.bind (Writer.emits_verifyRowGroupChecksum _ _ _) fun _ =>
    Script.emits_ensure _ _

theorem within_writeRowGroup (compactor : Compactor R) (schema : Schema) (chunk : Nat)
    (rows : List R) (rowIds : List RowIdSegment) (fragmentId attempt attempts : Nat) :
    (compactor.writeRowGroup choices schema chunk rows rowIds fragmentId attempt attempts).Emits
      (StorageEffect.Within (TouchesChunk choices chunk)) := by
  induction attempts generalizing attempt with
  | zero => exact Script.emits_fail _
  | succ attempts ih =>
      have staging := @TouchesChunk.staging R choices chunk
      refine Script.Emits.bind (within_writeRowGroupPart _ _ _ _ _ _ _) fun _ => ?_
      refine Script.Emits.bind (within_verifyStaged _ _ _ _ _ _ _) fun _ => ?_
      refine Script.Emits.bind Script.emits_read fun storage => ?_
      refine Script.Emits.ite (fun _ => ?_) fun _ => ?_
      · refine Script.Emits.ite (fun _ => Script.emits_fail _) fun _ => ?_
        refine Script.Emits.bind (Script.Emits.emit (staging _)) fun _ => ?_
        refine Script.Emits.bind (Script.Emits.emit (staging _)) fun _ => ?_
        exact Script.Emits.bind (Script.Emits.emit (staging _)) fun _ => ih (attempt + 1)
      · refine Script.Emits.bind (emits_renameFile ⟨staging _, .final (.data _)⟩) fun _ => ?_
        refine Script.Emits.bind (emits_renameFile ⟨staging _, .final (.sidecar _)⟩) fun _ => ?_
        exact Script.Emits.bind (emits_renameFile ⟨staging _, .final (.aggregate _)⟩) fun _ =>
          Script.emits_pure _

theorem within_stageChunk (compactor : Compactor R) (schema : Schema)
    (partitionValues : Option (HashMap String Scalar)) (state : StagingState)
    (chunk : List R × List Nat) :
    (compactor.stageChunk choices schema partitionValues state chunk).Emits
      (StorageEffect.Within (TouchesChunk choices state.chunks)) := by
  refine Script.Emits.bind (Script.emits_lift _) fun rows => ?_
  refine Script.Emits.bind (Script.Emits.emit trivial) fun _ => ?_
  refine Script.Emits.bind (within_writeRowGroup _ _ _ _ _ _ _ _) fun entry => ?_
  refine Script.Emits.bind (Script.Emits.emit trivial) fun _ => ?_
  refine Script.Emits.bind (Script.Emits.emit trivial) fun _ => ?_
  refine Script.Emits.bind (Script.Emits.each fun agg _ => Script.Emits.emit trivial) fun _ => ?_
  exact Script.Emits.bind (Script.Emits.provided fun _ => Script.Emits.emit trivial) fun _ =>
    Script.emits_pure _

theorem emits_stageChunk (compactor : Compactor R) (schema : Schema)
    (partitionValues : Option (HashMap String Scalar)) (state : StagingState)
    (chunk : List R × List Nat) :
    (compactor.stageChunk choices schema partitionValues state chunk).Emits
      (StorageEffect.Within (Touches choices nextSeq current)) :=
  (within_stageChunk compactor schema partitionValues state chunk).mono fun _ within =>
    within.mono fun _ => TouchesChunk.touches

theorem emits_beginStaging (pinned : Manifest) :
    (beginStaging choices pinned).Emits (StorageEffect.Within (Touches choices nextSeq current)) := by
  refine Script.Emits.bind (Script.Emits.emit trivial) fun _ => ?_
  exact Script.Emits.bind (Script.Emits.emit trivial) fun _ => Script.emits_pure _

/-- Rebuilding the row index writes its new base. -/
theorem within_rebuildRowIndex (manifest : Manifest) :
    (rebuildRowIndex manifest : TableProgram R RowIndexRef).Emits
      (StorageEffect.Within fun path => path = rowIndexBasePath manifest.sequence) := by
  refine Script.Emits.bind ?_ fun segments => ?_
  · refine Script.Emits.bind (Script.Emits.collect fun entry _ => ?_) fun live => ?_
    · refine Script.Emits.bind (Writer.emits_readSidecar _) fun sidecar => ?_
      refine Script.Emits.bind ?_ fun _ => Script.emits_pure _
      unfold readEntryDeletions
      split
      · exact Writer.emits_readDeletions _
      · exact Script.emits_pure _
    · dsimp only
      split
      · exact Script.emits_fail _
      · exact Script.emits_pure _
  · exact Script.Emits.bind (Script.Emits.emit rfl) fun _ => Script.emits_pure _

theorem emits_rebuildRowIndex {manifest : Manifest} (numbered : manifest.sequence = nextSeq) :
    (rebuildRowIndex manifest : TableProgram R RowIndexRef).Emits
      (StorageEffect.Within (Touches choices nextSeq current)) := by
  refine (within_rebuildRowIndex manifest).mono fun _ within => within.mono fun path path_eq => ?_
  rw [path_eq, numbered]
  exact .rowIndexBase

theorem emits_readPointerSequence : (readPointerSequence : TableProgram R _).Emits allowed := by
  refine Script.Emits.bind Script.emits_read fun storage => ?_
  split <;> simp

end Compactor

end IcefallDB
