import IcefallDB.Table.History
import IcefallDB.Table.RowCounts.Compactions
import IcefallDB.Table.RowCounts.Mutations

/-!
# Steps of a run

Commits, mutations, folds of the log, collections and the parts of compactions, each of which may be
cut short at any point, keep everything that the table refers to accounted for, and so what was pinned
before.  Each row group then holds what it was written with, and that is as promised if every step
keeps the promise.
-/

namespace IcefallDB

namespace RowCounts

variable {R : Type} {staging next : List Compactor.StagingState} {pins : List RecordedCounts}
  {storage after : TableStorage R} {valid : Validity R}

/-- What the compactions of a run have staged. -/
def staged (staging : List Compactor.StagingState) : List RecordedCounts :=
  staging.map Compactor.StagingState.outputs

/-- An action that a run may take: no row group that the table refers to, or that is listed, has one of
the identifiers that it draws, and a compaction goes on from what it has staged. -/
def Admitted (listed : List RecordedCounts) (staging : List Compactor.StagingState)
    (storage : TableStorage R) : TableAction R → Prop
  | .commit _ choices _ => New (Names choices) listed storage
  | .replace _ choices _ => New (Names choices) listed storage
  | .insertParquet _ choices _ => New (Names choices) listed storage
  | .mutate _ choices _ => New (Names choices) listed storage
  | .stageChunk _ choices _ _ state _ =>
      state ∈ staging ∧ New (RowGroupName choices state.chunks) listed storage
  | .publish _ _ _ _ _ state => state ∈ staging
  | _ => True

/-- The row groups that an action writes are as promised. -/
def Writes (valid : Validity R) : TableAction R → Prop
  | .commit writer choices buffer => PlansSealed valid choices writer buffer
  | .replace writer choices buffer => PlansSealed valid choices writer buffer
  | .insertParquet writer choices source => Imports valid choices writer source ∧ Shares valid choices
  | .mutate writer choices mutation => MutationSealed valid choices writer mutation
  | .stageChunk compactor choices schema _ state chunk =>
      ChunkSealed valid (RowGroupName choices state.chunks) compactor schema chunk
  | _ => True

/-- One step of a run that may take these actions, from what its compactions have staged and a
directory. -/
inductive Step (allowed : TableAction R → Prop) (pins : List RecordedCounts) :
    List Compactor.StagingState × TableStorage R → List Compactor.StagingState × TableStorage R → Prop
  /-- An action, up to any crash point. -/
  | act {staging : List Compactor.StagingState} {storage : TableStorage R} (action : TableAction R)
      (allows : allowed action) (admitted : Admitted (pins ++ staged staging) staging storage action)
      (steps : Nat) : Step allowed pins (staging, storage) (staging, action.program.crash storage steps)
  /-- A compaction begins to stage. -/
  | begin {staging : List Compactor.StagingState} {storage after : TableStorage R}
      (choices : Choices R) (pinned : Manifest) {state : Compactor.StagingState}
      (run : (Compactor.beginStaging choices pinned).Ends storage state after) :
      Step allowed pins (staging, storage) (state :: staging, after)
  /-- A compaction reads the row groups that it rewrites next. -/
  | read {staging : List Compactor.StagingState} {storage : TableStorage R}
      {state : Compactor.StagingState} (member : state ∈ staging) (inputRows : Nat) :
      Step allowed pins (staging, storage) ({ state with inputRows } :: staging, storage)
  /-- A compaction stages one more output row group. -/
  | stage {staging : List Compactor.StagingState} {storage after : TableStorage R}
      {compactor : Compactor R} {choices : Choices R} {schema : Schema}
      {partitionValues : Option (HashMap String Scalar)} {state next : Compactor.StagingState}
      {chunk : List R × List Nat}
      (allows : allowed (.stageChunk compactor choices schema partitionValues state chunk))
      (admitted : Admitted (pins ++ staged staging) staging storage
        (.stageChunk compactor choices schema partitionValues state chunk))
      (run : (compactor.stageChunk choices schema partitionValues state chunk).Ends storage next
        after) : Step allowed pins (staging, storage) (next :: staging, after)

theorem mem_listed {state : Compactor.StagingState} (member : state ∈ staging) :
    state.outputs ∈ pins ++ staged staging :=
  List.mem_append_right pins (List.mem_map_of_mem member)

/-- Every crash point of an action accounts for what the table refers to. -/
theorem counted_of_program (action : TableAction R) (writes : Writes valid action)
    (admitted : Admitted (pins ++ staged staging) staging storage action)
    (counted : Counted valid nothing (pins ++ staged staging) storage) :
    action.program.Always (Counted valid nothing (pins ++ staged staging)) storage := by
  have discards : ∀ {α : Type} {script : TableProgram R α} {post : α → TableStorage R → Prop},
      script.Safe (Counted valid nothing (pins ++ staged staging)) post storage →
        (script >>= fun _ => pure ()).Always (Counted valid nothing (pins ++ staged staging))
          storage := by
    intro α script post safe
    rw [Script.always_bind]
    constructor
    · exact safe.always
    · intro value middle run
      exact Script.always_pure.mpr (safe.always.ends run)
  cases action with
  | commit writer choices buffer => exact (safe_commit writer writes (counted.owned admitted)).always
  | replace writer choices buffer =>
      exact (safe_replace writer writes (counted.owned admitted)).always
  | insertParquet writer choices source =>
      obtain ⟨imports, shares⟩ := writes
      exact discards (safe_insertParquet writer imports shares (counted.owned admitted))
  | mutate writer choices mutation =>
      exact (safe_mutate writer writes (counted.owned admitted)).always
  | fold now => exact discards (safe_checkpointLocked now counted)
  | pin now => exact discards (safe_pinSource now counted)
  | beginStaging choices pinned =>
      exact discards (safe_of_lawful (List.Subset.refl _) (emits_beginStaging pinned) counted)
  | stageChunk compactor choices schema partitionValues state chunk =>
      obtain ⟨member, new⟩ := admitted
      exact discards (safe_stageChunk compactor partitionValues writes (mem_listed member)
        (counted.owned new))
  | publish compactor choices schema newSchemaId pinned state =>
      refine (safe_of_lawful (List.Subset.refl _) ?_ counted).always
      exact Script.Emits.bind
        (emits_publishCompaction compactor schema newSchemaId pinned (mem_listed admitted))
        fun _ => Script.Emits.emit trivial
  | abandon choices previousSchemaId newSchemaId paths =>
      exact (safe_of_lawful (List.Subset.refl _) (emits_rollbackCompaction _ _ _) counted).always
  | collect collector now => exact discards (safe_collect collector now counted)

/-- Whatever a run that may take these actions writes is as promised, since its names are new. -/
def Keeps (valid : Validity R) (allowed : TableAction R → Prop) (pins : List RecordedCounts) : Prop :=
  ∀ (staging : List Compactor.StagingState) (storage : TableStorage R) (action : TableAction R),
    allowed action → Admitted (pins ++ staged staging) staging storage action → Writes valid action

/-- A step keeps everything that the table refers to, or that is pinned, accounted for. -/
theorem Step.counted {allowed : TableAction R → Prop}
    (step : Step allowed pins (staging, storage) (next, after)) (keeps : Keeps valid allowed pins)
    (counted : Counted valid nothing (pins ++ staged staging) storage) :
    Counted valid nothing (pins ++ staged next) after := by
  have grows : ∀ {state : Compactor.StagingState} {reached : TableStorage R},
      Counted valid nothing (state.outputs :: (pins ++ staged staging)) reached →
        Counted valid nothing (pins ++ staged (state :: staging)) reached := by
    intro state reached counted
    apply counted.settle
    rw [staged, List.map_cons]
    exact List.perm_middle.subset
  cases step with
  | act action allows admitted steps =>
      exact counted_of_program action (keeps _ _ action allows admitted) admitted counted steps
  | begin choices pinned run =>
      have begun := (safe_of_lawful (List.Subset.refl _) (emits_beginStaging pinned) counted).ends _ _
        run
      apply grows
      rw [outputs_of_ends_beginStaging run]
      exact begun.track parallel_nil
  | read member inputRows =>
      have known := counted.parallel _ (.staged (mem_listed member))
      exact grows (counted.track known)
  | stage allows admitted run =>
      have seals := keeps _ _ _ allows admitted
      obtain ⟨member, new⟩ := admitted
      exact grows ((safe_stageChunk _ _ seals (mem_listed member) (counted.owned new)).ends _ _ run)

/-- A run keeps everything that the table refers to, or that is pinned, accounted for. -/
theorem counted_of_steps {allowed : TableAction R → Prop} (keeps : Keeps valid allowed pins)
    (run : Relation.ReflTransGen (Step allowed pins) (staging, storage) (next, after))
    (counted : Counted valid nothing (pins ++ staged staging) storage) :
    Counted valid nothing (pins ++ staged next) after := by
  suffices kept : ∀ reached, Relation.ReflTransGen (Step allowed pins) (staging, storage) reached →
      Counted valid nothing (pins ++ staged reached.1) reached.2 from kept _ run
  intro reached run
  induction run with
  | refl => exact counted
  | tail _ step ih => exact step.counted keeps ih

/-! ## Promises -/

/-- Without a promise, whatever is written is as promised. -/
theorem writes_of_true (action : TableAction R) : Writes (fun _ _ _ => True) action := by
  cases action with
  | commit | replace => exact fun _ _ _ _ _ _ _ _ _ _ => trivial
  | insertParquet => exact ⟨fun _ _ _ _ => trivial, fun _ _ _ _ _ => trivial⟩
  | mutate writer choices mutation =>
      cases mutation with
      | delete => trivial
      | update => exact fun _ _ _ _ _ _ => trivial
      | merge => exact ⟨fun _ _ _ _ _ _ => trivial, fun _ _ _ _ _ _ => trivial⟩
  | stageChunk => exact fun _ _ _ _ _ _ _ _ => trivial
  | _ => trivial

theorem keeps_true (allowed : TableAction R → Prop) (pins : List RecordedCounts) :
    Keeps (fun _ _ _ => True) allowed pins :=
  fun _ _ action _ _ => writes_of_true action

/-- What holds of every sidecar with a name that is not pinned can be promised as well, since new names
are not pinned. -/
theorem Keeps.and {allowed : TableAction R → Prop} {fact : Validity R}
    (keeps : Keeps valid allowed pins)
    (unpinned : ∀ files rows sidecar, (∀ recorded ∈ pins, ∀ pinned ∈ recorded.1, files.2 ≠ pinned.2) →
      fact files rows sidecar) :
    Keeps (fun files rows sidecar => valid files rows sidecar ∧ fact files rows sidecar) allowed
      pins := by
  intro staging storage action allows admitted
  have promised := keeps staging storage action allows admitted
  have named : ∀ {own : String → Prop} {name : String}, New own (pins ++ staged staging) storage →
      own name → ∀ recorded ∈ pins, ∀ pinned ∈ recorded.1, name ≠ pinned.2 := by
    rintro own _ new owned recorded listed pinned member rfl
    exact (new recorded (.staged (List.mem_append_left _ listed)) pinned member).2 owned
  have seals : ∀ {own : String → Prop} {kernel : Kernel R} {schema : Schema} {rows : List R},
      New own (pins ++ staged staging) storage → Seals valid own kernel schema rows →
        Seals (fun files rows sidecar => valid files rows sidecar ∧ fact files rows sidecar) own kernel
          schema rows := by
    intro own kernel schema rows new seals rgId rowIds computed data sidecar made
    exact ⟨seals rgId rowIds computed data sidecar made, unpinned _ _ _ (named new sidecar)⟩
  cases action with
  | commit | replace =>
      intro groups planned rows listed
      exact seals admitted (promised groups planned rows listed)
  | insertParquet writer choices source =>
      obtain ⟨imports, shares⟩ := promised
      constructor
      · intro columns footer attempt rowIds
        exact ⟨imports columns footer attempt rowIds,
          unpinned _ _ _ (named admitted ⟨0, attempt, .inr rfl⟩)⟩
      · rintro files rows sidecar rowIds ⟨kept, -⟩
        exact ⟨shares files rows sidecar rowIds kept,
          unpinned _ _ _ (named admitted ⟨0, 0, .inr rfl⟩)⟩
  | mutate writer choices mutation =>
      cases mutation with
      | delete => trivial
      | update => exact seals admitted promised
      | merge => exact ⟨seals admitted promised.1, seals admitted promised.2⟩
  | stageChunk => exact fun rows sorted => seals admitted.2 (promised rows sorted)
  | _ => trivial

end RowCounts

end IcefallDB
