import IcefallDB.Writer.Frame

/-!
# What staging leaves

The row groups of a commit are staged under names of their own, so writing and renaming one of them
leaves the files of the others alone.  After staging, every row group has its rows and its sidecar
under its final names, and those names were free before.
-/

namespace IcefallDB

/-! ## Names of a row group -/

variable {left right : String}

theorem eq_of_append_suffix {suffix : String} (same : left ++ suffix = right ++ suffix) :
    left = right := by
  have chars := congrArg String.toList same
  rw [String.toList_append, String.toList_append] at chars
  exact String.toList_injective (List.append_cancel_right chars)

theorem eq_of_append_stem {stem : String} (same : stem ++ left = stem ++ right) : left = right := by
  have chars := congrArg String.toList same
  rw [String.toList_append, String.toList_append] at chars
  exact String.toList_injective (List.append_cancel_left chars)

theorem partPath_injective {directory : String}
    (same : partPath directory left = partPath directory right) : left = right :=
  eq_of_append_stem (eq_of_append_suffix same)

variable {R : Type}

theorem Choices.rgId_injective (choices : Choices R) {group group' attempt attempt' : Nat}
    (same : choices.rgId group attempt = choices.rgId group' attempt') :
    group = group' ∧ attempt = attempt' :=
  choices.uuid_injective (eq_of_append_stem same)

/-- The names that the files of a row group can get. -/
inductive RowGroupName (choices : Choices R) (index : Nat) : String → Prop
  | data (attempt : Nat) : RowGroupName choices index (dataFilename (choices.rgId index attempt))
  | sidecar (attempt : Nat) : RowGroupName choices index (metaFilename (choices.rgId index attempt))
  | aggregate (attempt : Nat) :
      RowGroupName choices index (aggFilename (choices.rgId index attempt))

/-- The files of a row group, staged ones included. -/
inductive GroupFile (choices : Choices R) (index : Nat) : String → Prop
  | final {path : String} (named : RowGroupName choices index path) : GroupFile choices index path
  | staged {name : String} (named : RowGroupName choices index name) :
      GroupFile choices index (partPath "incoming" name)

variable {choices : Choices R}

theorem RowGroupName.kind_ne_staging {index : Nat} {name : String}
    (named : RowGroupName choices index name) : kindOf name ≠ .staging := by
  cases named with
  | data attempt => simp [Choices.rgId]
  | sidecar attempt => simp [Choices.rgId]
  | aggregate attempt => simp [Choices.rgId]

theorem RowGroupName.unique {index index' : Nat} {name : String}
    (left : RowGroupName choices index name) (right : RowGroupName choices index' name) :
    index = index' := by
  have kinds : ∀ {first second : String}, first = second → kindOf first = kindOf second :=
    fun same => congrArg kindOf same
  generalize name_eq : name = other at right
  cases left with
  | data attempt =>
      cases right with
      | data attempt' => exact (choices.rgId_injective (eq_of_append_suffix name_eq)).1
      | sidecar attempt' => simpa [Choices.rgId] using kinds name_eq
      | aggregate attempt' => simpa [Choices.rgId] using kinds name_eq
  | sidecar attempt =>
      cases right with
      | data attempt' => simpa [Choices.rgId] using kinds name_eq
      | sidecar attempt' => exact (choices.rgId_injective (eq_of_append_suffix name_eq)).1
      | aggregate attempt' => simpa [Choices.rgId] using kinds name_eq
  | aggregate attempt =>
      cases right with
      | data attempt' => simpa [Choices.rgId] using kinds name_eq
      | sidecar attempt' => simpa [Choices.rgId] using kinds name_eq
      | aggregate attempt' => exact (choices.rgId_injective (eq_of_append_suffix name_eq)).1

variable {path : String}

/-- Different row groups have different files. -/
theorem GroupFile.unique {index index' : Nat} (left : GroupFile choices index path)
    (right : GroupFile choices index' path) : index = index' := by
  cases left with
  | final named =>
      generalize path_eq : path = other at right
      cases right with
      | final named' => exact named.unique (path_eq ▸ named')
      | staged named' =>
          subst path_eq
          exact absurd (kindOf_partPath _ _) named.kind_ne_staging
  | @staged name named =>
      generalize path_eq : partPath "incoming" name = other at right
      cases right with
      | final named' =>
          subst path_eq
          exact absurd (kindOf_partPath _ _) named'.kind_ne_staging
      | staged named' => exact named.unique (partPath_injective path_eq ▸ named')

/-- The effects that staging a row group can have. -/
inductive StagesGroup (choices : Choices R) (index : Nat) : StorageEffect (File R) (File R) → Prop
  | write {path : String} (file : GroupFile choices index path) (contents : File R) :
      StagesGroup choices index (.write path contents)
  | rename {source target : String} (moved : GroupFile choices index source)
      (named : GroupFile choices index target) : StagesGroup choices index (.rename source target)
  | delete {path : String} (file : GroupFile choices index path) :
      StagesGroup choices index (.delete path)
  | note {path : String} (named : RowGroupName choices index path) :
      StagesGroup choices index (.note (.stagedFile path))

theorem StagesGroup.within {index : Nat} {effect : StorageEffect (File R) (File R)}
    (stages : StagesGroup choices index effect) : effect.Within (GroupFile choices index) := by
  cases stages with
  | write file contents => exact file
  | rename moved named => exact ⟨moved, named⟩
  | delete file => exact file
  | note named => trivial

namespace Writer

/-! ## Staging one row group -/

/-- A row group's rows and sidecar are in two files. -/
structure Holds (writer : Writer R) (planned : PlannedRowGroup R) (rgId dataPath metaPath : String)
    (storage : TableStorage R) : Prop where
  data : storage.files.lookup dataPath = some (.data planned.rows)
  sidecar : ∃ sidecar, writer.computeRowGroupMeta rgId planned.rows [planned.rowIds] = .ok sidecar ∧
    storage.files.lookup metaPath = some (.sidecar sidecar)

/-- A row group is staged under an identifier. -/
def Staged (writer : Writer R) (planned : PlannedRowGroup R) (rgId : String)
    (storage : TableStorage R) : Prop :=
  writer.Holds planned rgId (partPath "incoming" (dataFilename rgId))
    (partPath "incoming" (metaFilename rgId)) storage

variable {writer : Writer R} {planned : PlannedRowGroup R} {allowed : String → Prop}
  {before after : TableStorage R}

theorem Holds.of_sameOutside {rgId dataPath metaPath : String}
    (holds : writer.Holds planned rgId dataPath metaPath before)
    (same : Storage.SameOutside allowed before after) (data_kept : ¬allowed dataPath)
    (sidecar_kept : ¬allowed metaPath) : writer.Holds planned rgId dataPath metaPath after := by
  obtain ⟨data, sidecar, computed, found⟩ := holds
  exact ⟨(same.files _ data_kept).trans data, sidecar, computed,
    (same.files _ sidecar_kept).trans found⟩

variable {index attempt : Nat}

private theorem dataPart_file : GroupFile choices index
    (partPath "incoming" (dataFilename (choices.rgId index attempt))) :=
  .staged (.data attempt)

private theorem metaPart_file : GroupFile choices index
    (partPath "incoming" (metaFilename (choices.rgId index attempt))) :=
  .staged (.sidecar attempt)

private theorem aggPart_file : GroupFile choices index
    (partPath "incoming" (aggFilename (choices.rgId index attempt))) :=
  .staged (.aggregate attempt)

theorem stages_writeRowGroupPart (writer : Writer R) (planned : PlannedRowGroup R) :
    (writer.writeRowGroupPart planned (choices.rgId index attempt)).Emits
      (StagesGroup choices index) := by
  unfold writeRowGroupPart
  refine Script.Emits.bind (Script.Emits.emit (.write dataPart_file _)) fun _ => ?_
  refine Script.Emits.bind (Script.emits_lift _) fun sidecar => ?_
  refine Script.Emits.bind (Script.Emits.emit (.write metaPart_file _)) fun _ => ?_
  exact Script.Emits.ite (fun _ => Script.emits_pure _) fun _ => Script.Emits.emit (.write aggPart_file _)

private theorem part_ne (different : kindOf left ≠ kindOf right) :
    partPath "incoming" left ≠ partPath "incoming" right :=
  fun same => different (congrArg kindOf (partPath_injective same))

/-- Writing the staged files of a row group stages it. -/
theorem staged_of_ends
    (run : (writer.writeRowGroupPart planned (choices.rgId index attempt)).Ends before () after) :
    writer.Staged planned (choices.rgId index attempt) after := by
  simp only [writeRowGroupPart, Script.ends_bind, Script.ends_emit, Script.ends_lift] at run
  obtain ⟨_, _, rfl, sidecar, _, ⟨computed, rfl⟩, _, _, rfl, run⟩ := run
  have data_ne_meta : partPath "incoming" (dataFilename (choices.rgId index attempt)) ≠
      partPath "incoming" (metaFilename (choices.rgId index attempt)) :=
    part_ne (by simp [Choices.rgId])
  have data_ne_agg : partPath "incoming" (dataFilename (choices.rgId index attempt)) ≠
      partPath "incoming" (aggFilename (choices.rgId index attempt)) :=
    part_ne (by simp [Choices.rgId])
  have meta_ne_agg : partPath "incoming" (metaFilename (choices.rgId index attempt)) ≠
      partPath "incoming" (aggFilename (choices.rgId index attempt)) :=
    part_ne (by simp [Choices.rgId])
  rw [Script.ends_ite] at run
  rcases run with ⟨-, run⟩ | ⟨-, run⟩
  · obtain ⟨-, rfl⟩ := Script.ends_pure.mp run
    refine ⟨?_, sidecar, computed, ?_⟩
    · simp [Effect.perform, Storage.perform, AList.lookup_insert_ne data_ne_meta]
    · simp [Effect.perform, Storage.perform]
  · obtain rfl := Script.ends_emit.mp run
    refine ⟨?_, sidecar, computed, ?_⟩
    · simp [Effect.perform, Storage.perform, AList.lookup_insert_ne data_ne_agg,
        AList.lookup_insert_ne data_ne_meta]
    · simp [Effect.perform, Storage.perform, AList.lookup_insert_ne meta_ne_agg]

/-- Verifying a staged row group keeps it staged. -/
theorem staged_of_ends_verifyStaged
    (staged : writer.Staged planned (choices.rgId index attempt) before)
    (run : (writer.verifyStaged planned (choices.rgId index attempt)).Ends before () after) :
    writer.Staged planned (choices.rgId index attempt) after := by
  simp only [verifyStaged, Kernel.verifyRowGroupChecksum, Script.ends_bind, ends_readRows,
    ends_readSidecar, Script.ends_pure] at run
  obtain ⟨verified, _, ⟨_, _, ⟨-, rfl⟩, _, _, ⟨-, rfl⟩, -, rfl⟩, run⟩ := run
  rw [Script.ends_ite] at run
  rcases run with ⟨-, run⟩ | ⟨-, run⟩
  · obtain ⟨-, rfl⟩ := Script.ends_pure.mp run
    exact staged
  · simp only [Script.ends_bind, ends_readRows, ends_readSidecar, Script.ends_pure,
      Script.ends_ensure] at run
    obtain ⟨⟨⟩, _, rewritten, _, _, ⟨_, _, ⟨-, rfl⟩, _, _, ⟨-, rfl⟩, -, rfl⟩, -, rfl⟩ := run
    exact staged_of_ends rewritten

theorem stages_verifyStaged (writer : Writer R) (planned : PlannedRowGroup R) :
    (writer.verifyStaged planned (choices.rgId index attempt)).Emits
      (StagesGroup choices index) := by
  unfold verifyStaged
  refine Script.Emits.bind (emits_verifyRowGroupChecksum _ _ _) fun verified => ?_
  refine Script.Emits.ite (fun _ => Script.emits_pure _) fun _ => ?_
  refine Script.Emits.bind (stages_writeRowGroupPart _ _) fun _ => ?_
  exact Script.Emits.bind (emits_verifyRowGroupChecksum _ _ _) fun _ => Script.emits_ensure _ _

/-- The files of a row group under their final names, which were free. -/
structure Promoted (writer : Writer R) (choices : Choices R) (planned : PlannedRowGroup R)
    (before after : TableStorage R) (files : RowGroupFiles) : Prop where
  attempt : ∃ attempt, files.data = dataFilename (choices.rgId planned.index attempt) ∧
    files.metaFile = metaFilename (choices.rgId planned.index attempt) ∧
    (∀ agg, files.agg = some agg → agg = aggFilename (choices.rgId planned.index attempt)) ∧
    writer.Holds planned (choices.rgId planned.index attempt) files.data files.metaFile after
  data_free : before.fileExists files.data = false
  sidecar_free : before.fileExists files.metaFile = false

private theorem final_ne (different : kindOf left ≠ kindOf right) : left ≠ right :=
  fun same => different (congrArg kindOf same)

theorem final_ne_part {name directory other : String} (kind : kindOf name ≠ .staging) :
    name ≠ partPath directory other :=
  fun same => kind (same ▸ kindOf_partPath directory other)

/-- A rename moves the contents and leaves the other files alone. -/
theorem lookup_of_ends_renameFile {source target : String} {result : Unit}
    (run : (renameFile source target).Ends before result after) :
    after.files.lookup target = before.files.lookup source ∧
      ∀ path, path ≠ source → path ≠ target →
        after.files.lookup path = before.files.lookup path := by
  obtain ⟨contents, found, rfl⟩ := ends_renameFile.mp run
  refine ⟨by simp [found], fun path not_source not_target => ?_⟩
  simp only
  rw [AList.lookup_insert_ne not_target, AList.lookup_erase_ne not_source]

variable {files : RowGroupFiles}

/-- Promotion moves staged rows and their sidecar to the final names. -/
theorem holds_of_ends_promoteRowGroup
    (staged : writer.Staged planned (choices.rgId index attempt) before)
    (run : (promoteRowGroup (choices.rgId index attempt)).Ends before files after) :
    files.data = dataFilename (choices.rgId index attempt) ∧
      files.metaFile = metaFilename (choices.rgId index attempt) ∧
      (∀ agg, files.agg = some agg → agg = aggFilename (choices.rgId index attempt)) ∧
      writer.Holds planned (choices.rgId index attempt) files.data files.metaFile after := by
  obtain ⟨data_staged, sidecar, computed, sidecar_staged⟩ := staged
  obtain ⟨⟨⟩, renamed, rename_data, run⟩ := Script.ends_bind.mp run
  obtain ⟨⟨⟩, promoted, rename_meta, run⟩ := Script.ends_bind.mp run
  obtain ⟨data_moved, others_kept⟩ := lookup_of_ends_renameFile rename_data
  obtain ⟨meta_moved, data_kept⟩ := lookup_of_ends_renameFile rename_meta
  have data_promoted :
      promoted.files.lookup (dataFilename (choices.rgId index attempt)) = some (.data planned.rows) := by
    rw [data_kept _ (final_ne_part (by simp [Choices.rgId])) (final_ne (by simp [Choices.rgId])),
      data_moved, data_staged]
  have sidecar_promoted :
      promoted.files.lookup (metaFilename (choices.rgId index attempt)) = some (.sidecar sidecar) := by
    rw [meta_moved, others_kept _ (part_ne (by simp [Choices.rgId]))
      (final_ne_part (by simp [Choices.rgId])).symm, sidecar_staged]
  simp only [Script.ends_bind, Script.ends_emit, Script.ends_read] at run
  obtain ⟨_, _, rfl, _, _, rfl, _, _, ⟨rfl, rfl⟩, run⟩ := run
  rw [Script.ends_ite] at run
  rcases run with ⟨-, run⟩ | ⟨-, run⟩
  · simp only [Script.ends_bind, Script.ends_emit, Script.ends_pure] at run
    obtain ⟨_, _, rename_agg, _, _, rfl, rfl, rfl⟩ := run
    obtain ⟨-, rest_kept⟩ := lookup_of_ends_renameFile rename_agg
    refine ⟨rfl, rfl, fun agg same => (Option.some.inj same).symm, ?_, sidecar, computed, ?_⟩
    · exact (rest_kept _ (final_ne_part (by simp [Choices.rgId]))
        (final_ne (by simp [Choices.rgId]))).trans data_promoted
    · exact (rest_kept _ (final_ne_part (by simp [Choices.rgId]))
        (final_ne (by simp [Choices.rgId]))).trans sidecar_promoted
  · obtain ⟨rfl, rfl⟩ := Script.ends_pure.mp run
    refine ⟨rfl, rfl, ?_, data_promoted, sidecar, computed, sidecar_promoted⟩
    intro agg absent
    cases absent

theorem stages_promoteRowGroup :
    (promoteRowGroup (choices.rgId index attempt) : TableProgram R RowGroupFiles).Emits
      (StagesGroup choices index) := by
  unfold promoteRowGroup
  refine Script.Emits.bind (emits_renameFile (.rename dataPart_file (.final (.data _)))) fun _ => ?_
  refine Script.Emits.bind (emits_renameFile (.rename metaPart_file (.final (.sidecar _)))) fun _ => ?_
  refine Script.Emits.bind (Script.Emits.emit (.note (.data _))) fun _ => ?_
  refine Script.Emits.bind (Script.Emits.emit (.note (.sidecar _))) fun _ => ?_
  refine Script.Emits.bind Script.emits_read fun storage => ?_
  refine Script.Emits.ite (fun _ => ?_) fun _ => Script.emits_pure _
  refine Script.Emits.bind (emits_renameFile (.rename aggPart_file (.final (.aggregate _)))) fun _ => ?_
  exact Script.Emits.bind (Script.Emits.emit (.note (.aggregate _))) fun _ => Script.emits_pure _

/-! ## Renaming a staged row group -/

theorem stages_renameRowGroupWithCollisionRetry (writer : Writer R) (planned : PlannedRowGroup R)
    (attempt attempts : Nat) :
    (writer.renameRowGroupWithCollisionRetry choices planned attempt attempts).Emits
      (StagesGroup choices planned.index) := by
  induction attempts generalizing attempt with
  | zero => exact Script.emits_fail _
  | succ attempts ih =>
      refine Script.Emits.bind (Script.Emits.provided fun _ => stages_writeRowGroupPart _ _)
        fun _ => ?_
      refine Script.Emits.bind (stages_verifyStaged _ _) fun _ => ?_
      refine Script.Emits.bind Script.emits_read fun storage => ?_
      refine Script.Emits.ite (fun _ => ?_) fun _ => stages_promoteRowGroup
      refine Script.Emits.ite (fun _ => Script.emits_fail _) fun _ => ?_
      refine Script.Emits.bind (Script.Emits.emit (.delete dataPart_file)) fun _ => ?_
      refine Script.Emits.bind (Script.Emits.emit (.delete metaPart_file)) fun _ => ?_
      exact Script.Emits.bind (Script.Emits.emit (.delete aggPart_file)) fun _ => ih (attempt + 1)

/-- Staged files only have names in the staging directory. -/
def IsPart (path : String) : Prop :=
  kindOf path = .staging

theorem parts_writeRowGroupPart (writer : Writer R) (planned : PlannedRowGroup R) (rgId : String) :
    (writer.writeRowGroupPart planned rgId).Emits (StorageEffect.Within IsPart) := by
  unfold writeRowGroupPart
  refine Script.Emits.bind (Script.Emits.emit (kindOf_partPath _ _)) fun _ => ?_
  refine Script.Emits.bind (Script.emits_lift _) fun sidecar => ?_
  refine Script.Emits.bind (Script.Emits.emit (kindOf_partPath _ _)) fun _ => ?_
  exact Script.Emits.ite (fun _ => Script.emits_pure _) fun _ =>
    Script.Emits.emit (kindOf_partPath _ _)

theorem parts_verifyStaged (writer : Writer R) (planned : PlannedRowGroup R) (rgId : String) :
    (writer.verifyStaged planned rgId).Emits (StorageEffect.Within IsPart) := by
  unfold verifyStaged
  refine Script.Emits.bind (emits_verifyRowGroupChecksum _ _ _) fun verified => ?_
  refine Script.Emits.ite (fun _ => Script.emits_pure _) fun _ => ?_
  refine Script.Emits.bind (parts_writeRowGroupPart _ _ _) fun _ => ?_
  exact Script.Emits.bind (emits_verifyRowGroupChecksum _ _ _) fun _ => Script.emits_ensure _ _

theorem fileExists_of_sameOutside (same : Storage.SameOutside allowed before after)
    (outside : ¬allowed path) : after.fileExists path = before.fileExists path := by
  rw [Storage.fileExists, Storage.fileExists, same.files path outside]

/-- A staged row group gets names that were free. -/
theorem promoted_of_ends_renameRowGroup {attempt attempts : Nat}
    (staged : attempt = 0 → writer.Staged planned (choices.rgId planned.index 0) before)
    (run : (writer.renameRowGroupWithCollisionRetry choices planned attempt attempts).Ends before
      files after) : writer.Promoted choices planned before after files := by
  induction attempts generalizing attempt before with
  | zero => exact (Script.ends_fail.mp run).elim
  | succ attempts ih =>
      rw [renameRowGroupWithCollisionRetry] at run
      obtain ⟨⟨⟩, rewritten, rewrite_run, run⟩ := Script.ends_bind.mp run
      obtain ⟨⟨⟩, verified, verify_run, run⟩ := Script.ends_bind.mp run
      obtain ⟨_, _, read_run, run⟩ := Script.ends_bind.mp run
      obtain ⟨rfl, rfl⟩ := Script.ends_read.mp read_run
      have rewritten_staged :
          writer.Staged planned (choices.rgId planned.index attempt) rewritten := by
        rw [Script.ends_provided] at rewrite_run
        split at rewrite_run
        · exact staged_of_ends rewrite_run
        · next first =>
            have zero : attempt = 0 := by simpa using first
            subst zero
            exact rewrite_run ▸ staged rfl
      have verified_staged := staged_of_ends_verifyStaged rewritten_staged verify_run
      -- until the name is decided only staged files change
      have only_parts : Storage.SameOutside IsPart before verified :=
        (sameOutside_of_emits (Script.Emits.provided fun _ => parts_writeRowGroupPart _ _ _)
          rewrite_run).trans (sameOutside_of_emits (parts_verifyStaged _ _ _) verify_run)
      have data_final : ¬IsPart (dataFilename (choices.rgId planned.index attempt)) := by
        simp [IsPart, Choices.rgId]
      have meta_final : ¬IsPart (metaFilename (choices.rgId planned.index attempt)) := by
        simp [IsPart, Choices.rgId]
      rw [Script.ends_ite] at run
      rcases run with ⟨-, run⟩ | ⟨free, run⟩
      · rw [Script.ends_ite] at run
        rcases run with ⟨-, run⟩ | ⟨-, run⟩
        · exact (Script.ends_fail.mp run).elim
        · simp only [Script.ends_bind, Script.ends_emit] at run
          obtain ⟨_, _, rfl, _, _, rfl, _, _, rfl, run⟩ := run
          have promoted := ih (fun zero => absurd zero (Nat.succ_ne_zero _)) run
          obtain ⟨later, data_eq, sidecar_eq, -⟩ := promoted.attempt
          have deletes_part : ∀ name, StorageEffect.Within IsPart
              (.delete (partPath "incoming" name) : StorageEffect (File R) (File R)) :=
            fun name => kindOf_partPath _ name
          have dropped := ((only_parts.perform
              (deletes_part (dataFilename (choices.rgId planned.index attempt)))).perform
            (deletes_part (metaFilename (choices.rgId planned.index attempt)))).perform
            (deletes_part (aggFilename (choices.rgId planned.index attempt)))
          refine ⟨promoted.attempt, ?_, ?_⟩
          · rw [← promoted.data_free]
            refine (fileExists_of_sameOutside dropped ?_).symm
            simp [data_eq, IsPart, Choices.rgId]
          · rw [← promoted.sidecar_free]
            refine (fileExists_of_sameOutside dropped ?_).symm
            simp [sidecar_eq, IsPart, Choices.rgId]
      · obtain ⟨data_eq, sidecar_eq, agg_eq, holds⟩ :=
          holds_of_ends_promoteRowGroup verified_staged run
        simp only [Bool.or_eq_true, not_or, Bool.not_eq_true] at free
        refine ⟨⟨attempt, data_eq, sidecar_eq, agg_eq, ?_⟩, ?_, ?_⟩
        · exact holds
        · rw [data_eq, ← fileExists_of_sameOutside only_parts data_final]
          exact free.1
        · rw [sidecar_eq, ← fileExists_of_sameOutside only_parts meta_final]
          exact free.2

/-! ## Staging all row groups -/

/-- The files of some row groups. -/
def GroupFiles (choices : Choices R) (groups : List (PlannedRowGroup R)) (path : String) : Prop :=
  ∃ group ∈ groups, GroupFile choices group.index path

theorem not_groupFiles {groups : List (PlannedRowGroup R)} (file : GroupFile choices index path)
    (other : index ∉ groups.map PlannedRowGroup.index) : ¬GroupFiles choices groups path := by
  rintro ⟨group, member, file'⟩
  apply other
  rw [file.unique file']
  exact List.mem_map_of_mem member

theorem not_groupFile_of_mem {groups : List (PlannedRowGroup R)} {group : PlannedRowGroup R}
    (member : group ∈ groups) (file : GroupFile choices group.index path)
    (other : index ∉ groups.map PlannedRowGroup.index) : ¬GroupFile choices index path := by
  intro file'
  apply other
  rw [file'.unique file]
  exact List.mem_map_of_mem member

theorem Staged.of_sameOutside (staged : writer.Staged planned (choices.rgId index attempt) before)
    (same : Storage.SameOutside allowed before after)
    (outside : ∀ path, GroupFile choices index path → ¬allowed path) :
    writer.Staged planned (choices.rgId index attempt) after :=
  Holds.of_sameOutside staged same (outside _ dataPart_file) (outside _ metaPart_file)

theorem Promoted.of_sameOutside {earlier later : String → Prop} {first second : TableStorage R}
    (promoted : writer.Promoted choices planned first second files)
    (same_before : Storage.SameOutside earlier before first)
    (same_after : Storage.SameOutside later second after)
    (outside_before : ∀ path, RowGroupName choices planned.index path → ¬earlier path)
    (outside_after : ∀ path, GroupFile choices planned.index path → ¬later path) :
    writer.Promoted choices planned before after files := by
  obtain ⟨attempt, data_eq, sidecar_eq, agg_eq, holds⟩ := promoted.attempt
  have data_name : RowGroupName choices planned.index files.data := data_eq ▸ .data _
  have sidecar_name : RowGroupName choices planned.index files.metaFile := sidecar_eq ▸ .sidecar _
  refine ⟨⟨attempt, data_eq, sidecar_eq, agg_eq, ?_⟩, ?_, ?_⟩
  · exact holds.of_sameOutside same_after (outside_after _ (.final data_name))
      (outside_after _ (.final sidecar_name))
  · rw [← fileExists_of_sameOutside same_before (outside_before _ data_name)]
    exact promoted.data_free
  · rw [← fileExists_of_sameOutside same_before (outside_before _ sidecar_name)]
    exact promoted.sidecar_free

private theorem sameOutside_writeParts {planned : List (PlannedRowGroup R)}
    (run : (Script.each (fun group => writer.writeRowGroupPart group (choices.rgId group.index 0))
      planned).Ends before () after) :
    Storage.SameOutside (GroupFiles choices planned) before after := by
  apply sameOutside_of_emits (Script.Emits.each fun group member => ?_) run
  exact (stages_writeRowGroupPart writer group).mono fun effect inside =>
    inside.within.mono fun path file => ⟨group, member, file⟩

/-- Writing all row groups stages each of them. -/
private theorem staged_of_ends_each {planned : List (PlannedRowGroup R)}
    (distinct : (planned.map PlannedRowGroup.index).Nodup)
    (run : (Script.each (fun group => writer.writeRowGroupPart group (choices.rgId group.index 0))
      planned).Ends before () after) :
    ∀ group ∈ planned, writer.Staged group (choices.rgId group.index 0) after := by
  induction planned generalizing before with
  | nil =>
      intro group member
      cases member
  | cons first rest ih =>
      obtain ⟨other, distinct_rest⟩ := List.nodup_cons.mp distinct
      obtain ⟨middle, first_run, rest_run⟩ := Script.ends_each_cons.mp run
      have first_staged := staged_of_ends first_run
      have rest_same := sameOutside_writeParts rest_run
      intro group member
      rcases List.mem_cons.mp member with rfl | in_rest
      · exact first_staged.of_sameOutside rest_same fun path file => not_groupFiles file other
      · exact ih distinct_rest rest_run group in_rest

private theorem sameOutside_renames {planned : List (PlannedRowGroup R)}
    {files : List RowGroupFiles}
    (run : (Script.collect (fun group => writer.renameRowGroupWithCollisionRetry choices group 0 3)
      planned).Ends before files after) :
    Storage.SameOutside (GroupFiles choices planned) before after := by
  apply sameOutside_of_emits (Script.Emits.collect fun group member => ?_) run
  exact (stages_renameRowGroupWithCollisionRetry writer group 0 3).mono fun effect inside =>
    inside.within.mono fun path file => ⟨group, member, file⟩

/-- Renaming staged row groups one after the other promotes each of them. -/
private theorem promoted_of_ends_collect {planned : List (PlannedRowGroup R)}
    (distinct : (planned.map PlannedRowGroup.index).Nodup) {files : List RowGroupFiles}
    (staged : ∀ group ∈ planned, writer.Staged group (choices.rgId group.index 0) before)
    (run : (Script.collect (fun group => writer.renameRowGroupWithCollisionRetry choices group 0 3)
      planned).Ends before files after) :
    List.Forall₂ (fun group => writer.Promoted choices group before after) planned files := by
  induction planned generalizing before files with
  | nil =>
      obtain ⟨rfl, -⟩ := Script.ends_collect_nil.mp run
      exact .nil
  | cons first rest ih =>
      obtain ⟨other, distinct_rest⟩ := List.nodup_cons.mp distinct
      obtain ⟨named, middle, first_run, names, rest_run, rfl⟩ := Script.ends_collect_cons.mp run
      have first_promoted := promoted_of_ends_renameRowGroup
        (fun _ => staged first List.mem_cons_self) first_run
      have first_same := sameOutside_of_emits
        ((stages_renameRowGroupWithCollisionRetry writer first 0 3).mono fun _ => StagesGroup.within)
        first_run
      have rest_same := sameOutside_renames rest_run
      have rest_staged : ∀ group ∈ rest,
          writer.Staged group (choices.rgId group.index 0) middle := by
        intro group member
        apply (staged group (List.mem_cons_of_mem first member)).of_sameOutside first_same
        exact fun path file => not_groupFile_of_mem member file other
      have rest_promoted := ih distinct_rest rest_staged rest_run
      refine .cons ?_ ?_
      · have start : Storage.SameOutside (fun _ => False) before before := Storage.SameOutside.refl _
        apply first_promoted.of_sameOutside start rest_same (fun _ _ => id)
        exact fun path file => not_groupFiles file other
      · have done : Storage.SameOutside (fun _ => False) after after := Storage.SameOutside.refl _
        have listed := (List.forall₂_and_left rest names).mpr ⟨fun group member => member, rest_promoted⟩
        apply listed.imp
        intro group found ⟨member, promoted⟩
        apply promoted.of_sameOutside first_same done _ fun _ _ => id
        exact fun path name => not_groupFile_of_mem member (.final name) other

/-- After staging, every row group has its rows and its sidecar under names that were free before,
and no other file changed. -/
theorem promoted_of_ends_stageRowGroups {planned : List (PlannedRowGroup R)}
    (distinct : (planned.map PlannedRowGroup.index).Nodup) {files : List RowGroupFiles}
    (run : (writer.stageRowGroups choices planned).Ends before files after) :
    List.Forall₂ (fun group => writer.Promoted choices group before after) planned files ∧
      Storage.SameOutside (GroupFiles choices planned) before after := by
  unfold stageRowGroups at run
  obtain ⟨⟨⟩, listed, list_run, run⟩ := Script.ends_bind.mp run
  obtain ⟨⟨⟩, noted, note_run, run⟩ := Script.ends_bind.mp run
  obtain ⟨⟨⟩, staged, write_run, run⟩ := Script.ends_bind.mp run
  obtain ⟨names, renamed, rename_run, run⟩ := Script.ends_bind.mp run
  obtain ⟨⟨⟩, tidied, tidy_run, run⟩ := Script.ends_bind.mp run
  obtain ⟨rfl, rfl⟩ := Script.ends_pure.mp run
  have lists : ∀ paths, StorageEffect.Within (fun _ => False)
      (.writeIntent choices.txnId paths : StorageEffect (File R) (File R)) := fun _ => trivial
  have notes : StorageEffect.Within (fun _ => False)
      (.note (.intent choices.txnId) : StorageEffect (File R) (File R)) := trivial
  have begun := (sameOutside_of_emits (Script.Emits.emit (lists _)) list_run).trans
    (sameOutside_of_emits (Script.Emits.emit notes) note_run)
  have tidy := sameOutside_of_emits
    (Script.Emits.provided fun _ => Script.Emits.emit (lists _)) tidy_run
  have parts : Storage.SameOutside IsPart before staged :=
    (begun.mono fun _ => False.elim).trans (sameOutside_of_emits
      (Script.Emits.each fun group _ => parts_writeRowGroupPart writer group _) write_run)
  have written : Storage.SameOutside (GroupFiles choices planned) before staged :=
    (begun.mono fun _ => False.elim).trans (sameOutside_writeParts write_run)
  refine ⟨?_, ?_⟩
  · have promoted := promoted_of_ends_collect distinct (staged_of_ends_each distinct write_run)
      rename_run
    apply promoted.imp
    intro group found done
    apply done.of_sameOutside parts tidy _ fun _ _ => id
    exact fun path name => name.kind_ne_staging
  · exact (written.trans (sameOutside_renames rename_run)).trans
      (tidy.mono fun _ => False.elim)

/-! ## Copying a Parquet file -/

theorem stages_stageAndRenameParquet (rows : List R) (sidecar : RowGroupMeta)
    (attempt attempts : Nat) :
    (stageAndRenameParquet choices rows sidecar attempt attempts).Emits
      (StagesGroup choices 0) := by
  induction attempts generalizing attempt with
  | zero => exact Script.emits_fail _
  | succ attempts ih =>
      refine Script.Emits.bind (Script.Emits.emit (.write dataPart_file _)) fun _ => ?_
      refine Script.Emits.bind (Script.Emits.emit (.write metaPart_file _)) fun _ => ?_
      refine Script.Emits.bind Script.emits_read fun storage => ?_
      refine Script.Emits.ite (fun _ => ?_) fun _ => ?_
      · refine Script.Emits.ite (fun _ => Script.emits_fail _) fun _ => ?_
        refine Script.Emits.bind (Script.Emits.emit (.delete dataPart_file)) fun _ => ?_
        exact Script.Emits.bind (Script.Emits.emit (.delete metaPart_file)) fun _ => ih (attempt + 1)
      · refine Script.Emits.bind (emits_renameFile (.rename dataPart_file (.final (.data _)))) fun _ => ?_
        refine Script.Emits.bind (emits_renameFile (.rename metaPart_file (.final (.sidecar _)))) fun _ => ?_
        refine Script.Emits.bind (Script.Emits.emit (.note (.data _))) fun _ => ?_
        exact Script.Emits.bind (Script.Emits.emit (.note (.sidecar _))) fun _ => Script.emits_pure _

/-- A copied Parquet file and its sidecar under names that were free. -/
structure Copied (choices : Choices R) (rows : List R) (sidecar : RowGroupMeta)
    (before after : TableStorage R) (files : RowGroupFiles) : Prop where
  attempt : ∃ attempt, files.data = dataFilename (choices.rgId 0 attempt) ∧
    files.metaFile = metaFilename (choices.rgId 0 attempt) ∧
    after.files.lookup files.metaFile = some (.sidecar
      { sidecar with
        rowGroup := choices.rgId 0 attempt
        metaChecksum :=
          { sidecar with rowGroup := choices.rgId 0 attempt : RowGroupMeta }.computeMetaChecksum })
  agg : files.agg = none
  data : after.files.lookup files.data = some (.data rows)
  data_free : before.fileExists files.data = false
  sidecar_free : before.fileExists files.metaFile = false

theorem copied_of_ends_stageAndRenameParquet {rows : List R} {sidecar : RowGroupMeta}
    {attempt attempts : Nat}
    (run : (stageAndRenameParquet choices rows sidecar attempt attempts).Ends before files after) :
    Copied choices rows sidecar before after files := by
  induction attempts generalizing attempt before with
  | zero => exact (Script.ends_fail.mp run).elim
  | succ attempts ih =>
      rw [stageAndRenameParquet] at run
      have deletes_part : ∀ name, StorageEffect.Within IsPart
          (.delete (partPath "incoming" name) : StorageEffect (File R) (File R)) :=
        fun name => kindOf_partPath _ name
      have writes_part : ∀ name contents, StorageEffect.Within IsPart
          (.write (partPath "incoming" name) contents : StorageEffect (File R) (File R)) :=
        fun name _ => kindOf_partPath _ name
      obtain ⟨⟨⟩, written, write_data, run⟩ := Script.ends_bind.mp run
      obtain ⟨⟨⟩, staged, write_meta, run⟩ := Script.ends_bind.mp run
      obtain ⟨_, _, read_run, run⟩ := Script.ends_bind.mp run
      obtain ⟨rfl, rfl⟩ := Script.ends_read.mp read_run
      have only_parts := (sameOutside_of_emits (Script.Emits.emit (writes_part _ _)) write_data).trans
        (sameOutside_of_emits (Script.Emits.emit (writes_part _ _)) write_meta)
      rw [Script.ends_ite] at run
      rcases run with ⟨-, run⟩ | ⟨free, run⟩
      · rw [Script.ends_ite] at run
        rcases run with ⟨-, run⟩ | ⟨-, run⟩
        · exact (Script.ends_fail.mp run).elim
        · obtain ⟨⟨⟩, _, drop_data, run⟩ := Script.ends_bind.mp run
          obtain ⟨⟨⟩, _, drop_meta, run⟩ := Script.ends_bind.mp run
          have dropped := only_parts.trans
            ((sameOutside_of_emits (Script.Emits.emit (deletes_part _)) drop_data).trans
              (sameOutside_of_emits (Script.Emits.emit (deletes_part _)) drop_meta))
          have copied := ih run
          obtain ⟨later, data_eq, sidecar_eq, -⟩ := copied.attempt
          refine ⟨copied.attempt, copied.agg, copied.data, ?_, ?_⟩
          · rw [← copied.data_free]
            refine (fileExists_of_sameOutside dropped ?_).symm
            simp [data_eq, IsPart, Choices.rgId]
          · rw [← copied.sidecar_free]
            refine (fileExists_of_sameOutside dropped ?_).symm
            simp [sidecar_eq, IsPart, Choices.rgId]
      · simp only [Bool.or_eq_true, not_or, Bool.not_eq_true] at free
        obtain ⟨⟨⟩, renamed, rename_data, run⟩ := Script.ends_bind.mp run
        obtain ⟨⟨⟩, copied, rename_meta, run⟩ := Script.ends_bind.mp run
        obtain ⟨⟨⟩, noted, note_data, run⟩ := Script.ends_bind.mp run
        obtain ⟨⟨⟩, _, note_meta, run⟩ := Script.ends_bind.mp run
        obtain ⟨rfl, rfl⟩ := Script.ends_pure.mp run
        obtain rfl := Script.ends_emit.mp write_data
        obtain rfl := Script.ends_emit.mp write_meta
        obtain rfl := Script.ends_emit.mp note_data
        obtain rfl := Script.ends_emit.mp note_meta
        obtain ⟨data_moved, others_kept⟩ := lookup_of_ends_renameFile rename_data
        obtain ⟨meta_moved, data_kept⟩ := lookup_of_ends_renameFile rename_meta
        have parts_differ : partPath "incoming" (dataFilename (choices.rgId 0 attempt)) ≠
            partPath "incoming" (metaFilename (choices.rgId 0 attempt)) :=
          part_ne (by simp [Choices.rgId])
        refine ⟨⟨attempt, rfl, rfl, ?_⟩, rfl, ?_, ?_, ?_⟩
        · refine meta_moved.trans ((others_kept _ parts_differ.symm
            (final_ne_part (by simp [Choices.rgId])).symm).trans ?_)
          simp [Effect.perform, Storage.perform]
        · refine (data_kept _ (final_ne_part (by simp [Choices.rgId]))
            (final_ne (by simp [Choices.rgId]))).trans (data_moved.trans ?_)
          simp [Effect.perform, Storage.perform, AList.lookup_insert_ne parts_differ]
        · rw [← fileExists_of_sameOutside only_parts (by simp [IsPart, Choices.rgId])]
          exact free.1
        · rw [← fileExists_of_sameOutside only_parts (by simp [IsPart, Choices.rgId])]
          exact free.2

end Writer

end IcefallDB
