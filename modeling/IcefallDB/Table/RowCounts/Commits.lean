import IcefallDB.Lib.Options
import IcefallDB.Table.RowCounts
import IcefallDB.Writer.Partition

/-!
# Commits keep row counts

Until it publishes, a commit writes data files and sidecars under its own identifiers only.  What it
publishes are row groups of the current manifest, and new ones whose files it has written itself; the
row counts it records are those of the current manifest or of its sidecars, followed by the counts of
what it has written.
-/

namespace IcefallDB

namespace RowCounts

variable {R : Type} {choices : Choices R} {own : String → Prop} {base staged : List RecordedCounts}
  {storage before after : TableStorage R} {recorded : RecordedCounts} {valid : Validity R}

/-! ## Effects of commits -/

theorem lawful_of_within {allowed : String → Prop}
    (permitted : ∀ path, allowed path → Auxiliary path ∨ own path)
    {effect : StorageEffect (File R) (File R)} (within : effect.Within allowed) :
    Lawful own staged effect := by
  cases effect with
  | write path contents => exact permitted path within
  | rename source target => exact permitted target within.2
  | writeManifest sequence manifest => exact within.elim
  | appendRecord mutation => exact within.elim
  | _ => trivial

theorem auxiliary_of_kind {path : String} {kind : FileKind} (kind_eq : kindOf path = kind)
    (not_data : kind ≠ .data) (not_sidecar : kind ≠ .sidecar) : Auxiliary path := by
  rw [Auxiliary, kind_eq]
  exact ⟨not_data, not_sidecar⟩

variable {current : Manifest}

/-- Of the files that a commit touches, those that hold rows have its identifiers. -/
theorem auxiliary_or_names {nextSeq : Nat} {path : String}
    (touches : Touches choices nextSeq current path) : Auxiliary path ∨ Names choices path := by
  cases touches with
  | staging kind => exact .inl (auxiliary_of_kind kind nofun nofun)
  | index kind => exact .inl (auxiliary_of_kind kind nofun nofun)
  | schema schemaId => exact .inl (auxiliary_of_kind (kindOf_schemaFilename schemaId) nofun nofun)
  | data group attempt => exact .inr ⟨group, attempt, .inl rfl⟩
  | sidecar group attempt => exact .inr ⟨group, attempt, .inr rfl⟩
  | aggregate group attempt => exact .inl (auxiliary_of_kind (kindOf_aggFilename _) nofun nofun)
  | deletions => exact .inl (auxiliary_of_kind (kindOf_deletionPath _ _) nofun nofun)
  | rowIndexDelta => exact .inl (auxiliary_of_kind (kindOf_rowIndexDeltaPath _) nofun nofun)
  | rowIndexBase => exact .inl (auxiliary_of_kind (kindOf_rowIndexBasePath _) nofun nofun)
  | checkpoint => exact .inl (auxiliary_of_kind (kindOf_checkpoint _) nofun nofun)
  | archive => exact .inl (auxiliary_of_kind (kindOf_archive _) nofun nofun)

theorem lawful_of_touches {nextSeq : Nat} {effect : StorageEffect (File R) (File R)}
    (within : effect.Within (Touches choices nextSeq current)) :
    Lawful (Names choices) staged effect :=
  lawful_of_within (fun _ => auxiliary_or_names) within

theorem emits_cleanupStaging (latestSeq : Nat) (referenced : List String) :
    (cleanupStaging latestSeq referenced : TableProgram R Unit).Emits (Lawful own staged) := by
  refine Script.Emits.bind Script.emits_read fun storage => ?_
  refine Script.Emits.bind (Script.Emits.each fun entry _ => ?_) fun _ => ?_
  · refine Script.Emits.bind (Script.Emits.each fun path _ => ?_) fun _ => Script.Emits.emit trivial
    exact Script.Emits.ite (fun _ => Script.emits_pure _) fun _ => Script.Emits.emit trivial
  · refine Script.Emits.bind (Script.Emits.each fun path _ => Script.Emits.emit trivial) fun _ => ?_
    exact Script.Emits.each fun sequence _ => Script.Emits.emit trivial

theorem emits_rollbackCommit (performed : List (StorageEffect (File R) (File R))) :
    (Writer.rollbackCommit performed).Emits (Lawful own staged) := by
  refine Script.Emits.ite (fun _ => Script.Emits.each fun _ _ => Script.Emits.emit trivial)
    fun _ => ?_
  refine Script.Emits.bind (Script.Emits.each fun _ _ => Script.Emits.emit trivial) fun _ => ?_
  refine Script.Emits.bind (Script.Emits.provided fun _ => Script.Emits.emit trivial) fun _ => ?_
  exact Script.Emits.each fun _ _ => Script.Emits.emit trivial

/-! ## Beginning -/

theorem safe_beginMutation (inside : base ⊆ staged) (counted : Counted valid own staged before) :
    Writer.beginMutation.Safe (Counted valid nothing base)
      (fun loaded after => Counted valid own (loaded.2.recordedCounts :: staged) after) before := by
  refine Script.safe_bind ((safe_loadCurrent inside counted).weaken ?_)
  rintro ⟨latestSeq, current⟩ loaded counted
  have wider := List.subset_cons_of_subset current.recordedCounts inside
  refine Script.safe_bind ((safe_of_lawful wider (emits_cleanupStaging _ _) counted).weaken
    fun _ cleaned counted => ?_)
  refine Script.safe_bind ((safe_of_lawful wider (Writer.emits_ensureNewSequence _) counted).weaken
    fun _ ensured counted => ?_)
  exact Script.safe_pure (counted.settle wider) counted

variable (writer : Writer R)

theorem safe_beginAppend (inside : base ⊆ staged) (counted : Counted valid own staged before) :
    writer.beginAppend.Safe (Counted valid nothing base)
      (fun loaded after => Counted valid own (loaded.2.recordedCounts :: staged) after) before := by
  refine Script.safe_bind ((safe_loadCurrent inside counted).weaken ?_)
  rintro ⟨latestSeq, current⟩ loaded counted
  have wider := List.subset_cons_of_subset current.recordedCounts inside
  refine Script.safe_bind ((safe_of_lawful wider (Writer.emits_checkSchemaPointer _) counted).weaken
    fun _ checked counted => ?_)
  refine Script.safe_bind ((safe_of_lawful wider (emits_cleanupStaging _ _) counted).weaken
    fun _ cleaned counted => ?_)
  refine Script.safe_bind ((safe_of_lawful wider (Writer.emits_ensureNewSequence _) counted).weaken
    fun _ ensured counted => ?_)
  exact Script.safe_pure (counted.settle wider) counted

/-! ## Publishing -/

theorem auxiliary_of_isSupport {path : String} (support : IsSupport path) : Auxiliary path := by
  rcases support with kind | kind | kind
  · exact auxiliary_of_kind kind nofun nofun
  · exact auxiliary_of_kind kind nofun nofun
  · exact auxiliary_of_kind kind nofun nofun

theorem emits_buildIndexesIntoManifest (manifest old : Manifest) (files : List String)
    (incrementalAppend : Bool) :
    (writer.buildIndexesIntoManifest choices manifest old files incrementalAppend).Emits
      (Lawful own staged) :=
  (Writer.within_buildIndexesIntoManifest writer choices manifest old files incrementalAppend).mono
    fun _ within => lawful_of_within (fun _ kind => .inl (auxiliary_of_isSupport (.inl kind))) within

theorem emits_checkpointManifest (localRoot : Bool) (old manifest : Manifest) (files : List String) :
    (Writer.checkpointManifest localRoot choices old manifest files).Emits (Lawful own staged) :=
  (Writer.within_checkpointManifest localRoot choices old manifest files).mono
    fun _ within => lawful_of_within
      (fun _ file => .inl (auxiliary_of_isSupport (.inr file.kind))) within

variable {manifest : Manifest}

theorem emits_writeManifest (member : manifest.recordedCounts ∈ staged) :
    (Writer.writeManifest choices manifest).Emits (Lawful own staged) := by
  refine Script.Emits.bind Script.emits_read fun storage => ?_
  refine Script.Emits.bind (Script.emits_ensure _ _) fun _ => ?_
  exact Script.Emits.bind (Script.Emits.emit member) fun _ => Script.emits_pure _

theorem emits_publish (member : manifest.recordedCounts ∈ staged) :
    (Writer.publish choices manifest).Emits (Lawful own staged) := by
  refine Script.Emits.bind (emits_writeManifest member) fun _ => ?_
  exact Script.Emits.bind (Script.Emits.emit trivial) fun _ => Script.Emits.emit trivial

theorem emits_commitSwap (files : List String) (member : manifest.recordedCounts ∈ staged) :
    (writer.commitSwap choices current manifest files).Emits (Lawful own staged) := by
  refine Script.Emits.bind_ends (emits_checkpointManifest _ _ _ _) fun _ checkpointed _ run => ?_
  obtain ⟨⟨checkpoint, rfl⟩, -⟩ := Writer.ends_checkpointManifest run
  exact emits_publish member

/-- Completing the manifest of an append records the same counts. -/
theorem emits_completed {α : Type} (writer : Writer R) {draft current : Manifest}
    (files : List String) (incrementalAppend : Bool)
    {rest : Manifest → TableProgram R α} (member : draft.recordedCounts ∈ staged)
    (emits : ∀ manifest, (rest manifest).Emits (Lawful own staged)) :
    (do
      let (manifest, intentFiles) ←
        writer.buildIndexesIntoManifest choices draft current files incrementalAppend
      let manifest ← Writer.checkpointManifest writer.localRoot choices current manifest intentFiles
      let manifest ← Writer.writeManifest choices manifest
      rest manifest : TableProgram R α).Emits (Lawful own staged) := by
  refine Script.Emits.bind_ends (emits_buildIndexesIntoManifest _ _ _ _ _) ?_
  rintro _ ⟨manifest, intentFiles⟩ _ run
  obtain ⟨⟨generations, rfl⟩, -⟩ := Writer.ends_buildIndexesIntoManifest run
  refine Script.Emits.bind_ends (emits_checkpointManifest _ _ _ _) fun _ checkpointed _ run => ?_
  obtain ⟨⟨checkpoint, rfl⟩, -⟩ := Writer.ends_checkpointManifest run
  exact Script.Emits.bind (emits_writeManifest member) emits

/-! ## Counts of an append -/

/-- Collected row counts are those of the row groups that stay, followed by those that are added. -/
theorem sized_of_collectRowCounts {existing : List RowGroupEntry} {added counts : List Nat}
    (sized : ∀ entry ∈ existing, ∃ count, Sized storage entry.files count)
    (counted : ∀ known, current.rowCounts = some known → known.length = existing.length →
      List.Forall₂ (Sized storage) (existing.map RowGroupEntry.files) known)
    (collected : Writer.collectRowCounts storage existing current added = some counts) :
    ∃ known, counts = known ++ added ∧
      List.Forall₂ (Sized storage) (existing.map RowGroupEntry.files) known := by
  unfold Writer.collectRowCounts at collected
  split at collected
  · next known known_eq =>
      obtain ⟨same_length, counts_eq⟩ := Option.ite_none_right_eq_some.mp collected
      exact ⟨known, (Option.some.inj counts_eq).symm, counted known known_eq same_length⟩
  · obtain ⟨known, read, counts_eq⟩ := Option.bind_eq_some_iff.mp collected
    refine ⟨known, (Option.some.inj counts_eq).symm, ?_⟩
    have results := List.forall₂_of_mapM_eq_some read
    rw [List.forall₂_map_left_iff]
    apply ((List.forall₂_and_left _ _).mpr ⟨fun entry member => member, results⟩).imp
    rintro entry rows ⟨member, result⟩
    obtain ⟨count, count_sized⟩ := sized entry member
    split at result
    · next sidecar found =>
        obtain ⟨-, rows_eq⟩ := Option.ite_none_right_eq_some.mp result
        obtain rfl := Option.some.inj rows_eq
        rwa [count_sized.sidecar sidecar found]
    · cases result

theorem rows_of_computeRowGroupMeta {writer : Writer R} {rgId : String} {rows : List R}
    {rowIds : List RowIdSegment} {sidecar : RowGroupMeta}
    (computed : writer.computeRowGroupMeta rgId rows rowIds = .ok sidecar) :
    sidecar.rows = rows.length := by
  obtain ⟨⟨columns, columnOffsets⟩, -, made⟩ := Script.except_bind_eq_ok.mp computed
  rw [← Except.ok.inj made]

/-- A row group whose files have the names of row groups was written as promised, with so many
rows. -/
structure Written (valid : Validity R) (storage : TableStorage R) (files : String × String)
    (count : Nat) : Prop where
  kinds : kindOf files.1 = .data ∧ kindOf files.2 = .sidecar
  held : ∃ rows sidecar, Held storage files rows sidecar ∧ valid files rows sidecar ∧
    rows.length = count

/-- What is in the two files of a row group decides what it was written with. -/
theorem held_of_lookup {files : String × String} {rows : List R} {sidecar : RowGroupMeta}
    (data : storage.files.lookup files.1 = some (.data rows))
    (meta_found : storage.files.lookup files.2 = some (.sidecar sidecar))
    (rows_eq : sidecar.rows = rows.length) : Held storage files rows sidecar where
  data_eq contents found := by
    rw [data] at found
    exact (Option.some.inj found).symm
  sidecar_eq contents found := by
    rw [meta_found] at found
    exact (Option.some.inj found).symm
  rows_eq := rows_eq

/-- Row groups with their own files and counts are accounted for. -/
theorem parallel_of_forall₂ {groups : List (String × String)} {counts : List Nat}
    (each : List.Forall₂ (Written valid storage) groups counts) :
    Parallel valid nothing storage (groups, some counts) where
  kinds files member := by
    obtain ⟨count, -, written⟩ := each.exists_of_mem_left member
    exact written.kinds
  foreign _ _ := ⟨id, id⟩
  held files member := by
    obtain ⟨count, -, -, rows, sidecar, held, promised, -⟩ := each.exists_of_mem_left member
    exact ⟨rows, sidecar, held, promised⟩
  counted known known_eq := by
    obtain rfl := Option.some.inj known_eq
    apply each.imp
    rintro files count ⟨-, rows, sidecar, held, -, rfl⟩
    exact held.sized

/-- The row groups of an append: all of the current ones or none, and new ones. -/
theorem Parallel.collect {existing added : List RowGroupEntry} {addedCounts : List Nat}
    (known : Parallel valid nothing storage current.recordedCounts)
    (all_or_none : existing = current.rowGroups ∨ existing = [])
    (new : Parallel valid nothing storage (added.map RowGroupEntry.files, some addedCounts)) :
    Parallel valid nothing storage ((existing ++ added).map RowGroupEntry.files,
      Writer.collectRowCounts storage existing current addedCounts) := by
  have inside : ∀ files ∈ existing.map RowGroupEntry.files,
      files ∈ current.rowGroups.map RowGroupEntry.files := by
    rcases all_or_none with rfl | rfl
    · exact fun _ => id
    · exact nofun
  have old : Parallel valid nothing storage (existing.map RowGroupEntry.files, none) := known.subset inside
  have beside : ∀ counts, current.rowCounts = some counts → counts.length = existing.length →
      List.Forall₂ (Sized storage) (existing.map RowGroupEntry.files) counts := by
    intro counts known_eq same_length
    rcases all_or_none with rfl | rfl
    · exact known.counted counts known_eq
    · rw [List.length_eq_zero_iff.mp same_length]
      exact .nil
  rw [List.map_append]
  apply old.append new
  intro all collected
  obtain ⟨first, rfl, first_beside⟩ := sized_of_collectRowCounts
    (fun entry member => old.sized _ (List.mem_map_of_mem member)) beside collected
  exact ⟨first, addedCounts, rfl, first_beside, new.counted addedCounts rfl⟩

/-! ## Buffered batches -/

theorem safe_note (inside : base ⊆ staged) (counted : Counted valid own staged before)
    (entry : RollbackNote) :
    (Script.emit (.note entry) : TableProgram R Unit).Safe (Counted valid nothing base)
      (fun _ after => Counted valid own staged after) before :=
  safe_of_lawful inside (Script.Emits.emit trivial) counted

theorem safe_writeIntent (inside : base ⊆ staged) (counted : Counted valid own staged before)
    (intent : String) (files : List String) :
    (Script.emit (.writeIntent intent files) : TableProgram R Unit).Safe (Counted valid nothing base)
      (fun _ after => Counted valid own staged after) before :=
  safe_of_lawful inside (Script.Emits.emit trivial) counted

theorem safe_provided_writeIntent (inside : base ⊆ staged) (counted : Counted valid own staged before)
    (condition : Bool) (intent : String) (files : List String) :
    (Script.provided condition (Script.emit (.writeIntent intent files)) :
      TableProgram R Unit).Safe (Counted valid nothing base)
        (fun _ after => Counted valid own staged after ∧ after.files = before.files) before := by
  cases condition with
  | false => exact Script.safe_pure (counted.settle inside) ⟨counted, rfl⟩
  | true =>
      refine (safe_writeIntent inside counted intent files).strengthen.weaken ?_
      rintro _ after ⟨run, counted⟩
      obtain rfl := Script.ends_emit.mp run
      exact ⟨counted, rfl⟩

theorem safe_deleteIntent (inside : base ⊆ staged) (counted : Counted valid own staged before)
    (intent : String) :
    (Script.emit (.deleteIntent intent) : TableProgram R Unit).Safe (Counted valid nothing base)
      (fun _ after => Counted valid own staged after) before :=
  safe_of_lawful inside (Script.Emits.emit trivial) counted

theorem kinds_of_rgId (group attempt : Nat) :
    kindOf (dataFilename (choices.rgId group attempt)) = .data ∧
      kindOf (metaFilename (choices.rgId group attempt)) = .sidecar :=
  ⟨kindOf_dataFilename _, kindOf_metaFilename _⟩

/-- The row groups that a commit has staged are accounted for. -/
theorem parallel_of_promoted {writer : Writer R} {planned : List (Writer.PlannedRowGroup R)}
    {files : List Writer.RowGroupFiles}
    (seals : ∀ group ∈ planned, Seals valid (Names choices) writer.kernel writer.schema group.rows)
    (promoted : List.Forall₂ (fun group => writer.Promoted choices group before after) planned files) :
    Parallel valid nothing after
      ((List.zipWith (fun group => Writer.newEntry group.fragmentId) planned files).map
        RowGroupEntry.files, some (planned.map fun group => group.rows.length)) := by
  apply parallel_of_forall₂
  induction promoted with
  | nil => exact .nil
  | cons first _ ih =>
      obtain ⟨attempt, data_eq, sidecar_eq, -, data, sidecar, computed, found⟩ := first.attempt
      apply List.Forall₂.cons _ (ih fun group member => seals group (List.mem_cons_of_mem _ member))
      constructor
      · simp only [RowGroupEntry.files, Writer.newEntry, data_eq, sidecar_eq]
        exact kinds_of_rgId _ _
      · refine ⟨_, sidecar, held_of_lookup data found (rows_of_computeRowGroupMeta computed), ?_, rfl⟩
        simp only [Writer.newEntry, data_eq, sidecar_eq]
        exact seals _ List.mem_cons_self _ _ _ ⟨_, _, .inl rfl⟩ ⟨_, _, .inr rfl⟩ computed

theorem rows_plannedOn (current : Manifest) (groups : List (List R)) :
    (Writer.plannedOn current groups).map Writer.PlannedRowGroup.rows = groups :=
  Writer.allocate_rows 0 current.nextRowId current.nextFragmentId groups

theorem counts_plannedOn (current : Manifest) (groups : List (List R)) :
    (Writer.plannedOn current groups).map (fun group => group.rows.length) =
      groups.map List.length :=
  List.map_map.symm.trans (congrArg (List.map List.length) (rows_plannedOn current groups))

/-- Each row group that a writer plans for its buffer is as promised. -/
def PlansSealed (valid : Validity R) (choices : Choices R) (writer : Writer R)
    (buffer : List (List R)) : Prop :=
  ∀ groups, writer.planRowGroups choices buffer = .ok groups →
    ∀ rows ∈ groups, Seals valid (Names choices) writer.kernel writer.schema rows

variable {buffer : List (List R)}

theorem safe_tryCommit (replace : Bool) (seals : PlansSealed valid choices writer buffer)
    (counted : Counted valid (Names choices) base before) :
    (writer.tryCommit choices buffer replace).Safe (Counted valid nothing base)
      (fun _ after => Counted valid nothing base after) before := by
  refine Script.safe_bind ((safe_beginAppend writer (List.Subset.refl _) counted).weaken ?_)
  rintro ⟨latestSeq, current⟩ begun counted
  have inside : base ⊆ current.recordedCounts :: base := List.subset_cons_self _ _
  refine Script.safe_bind (Script.safe_lift (counted.settle inside) fun groups planned => ?_)
  refine Script.safe_bind ((safe_note inside counted _).weaken fun _ noted counted => ?_)
  have stages : (writer.stageRowGroups choices (Writer.plannedOn current groups)).Emits
      (StorageEffect.Within (Touches choices (latestSeq + 1) current)) :=
    Writer.emits_stageRowGroups writer _
  refine Script.safe_bind ((safe_of_lawful inside (stages.mono fun _ => lawful_of_touches)
    counted).strengthen.weaken ?_)
  rintro files written ⟨run, counted⟩
  have settled := counted.settle inside
  obtain ⟨promoted, -⟩ := Writer.promoted_of_ends_stageRowGroups
    (Writer.plannedOn_index_nodup current groups) run
  refine Script.safe_bind (Script.safe_lift settled fun partitionValues _ => ?_)
  refine Script.safe_bind (Script.safe_read settled ?_)
  have known := (counted.settle (List.Subset.refl _)).parallel _ (.staged List.mem_cons_self)
  have all_or_none : (if replace then [] else current.rowGroups) = current.rowGroups ∨
      (if replace then [] else current.rowGroups) = [] := by
    cases replace with
    | false => exact .inl rfl
    | true => exact .inr rfl
  have sealed : ∀ group ∈ Writer.plannedOn current groups,
      Seals valid (Names choices) writer.kernel writer.schema group.rows := by
    intro group member
    apply seals groups planned
    rw [← rows_plannedOn current groups]
    exact List.mem_map_of_mem member
  have draft := known.collect all_or_none (parallel_of_promoted sealed promoted)
  rw [counts_plannedOn] at draft
  have tracked := (counted.settle inside).track draft
  refine (safe_of_lawful (List.subset_cons_self _ _) (emits_completed writer _ _ ?_ ?_) tracked).weaken
    fun _ after counted => counted.settle (List.subset_cons_self _ _)
  · exact List.mem_cons_self
  · intro manifest
    refine Script.Emits.bind (Script.Emits.each fun entry _ =>
      Writer.emits_plannedRowGroupForEntry entry) fun _ => ?_
    refine Script.Emits.bind (Script.Emits.emit trivial) fun _ => ?_
    exact Script.Emits.bind (Script.Emits.emit trivial) fun _ => Script.emits_pure _

/-- A failed commit is rolled back without writing anything. -/
theorem safe_rolledBack {α : Type} {body : TableProgram R α} {post : α → TableStorage R → Prop}
    (safe : body.Safe (Counted valid nothing base) post before) :
    (body.onError Writer.rollbackCommit).Safe (Counted valid nothing base) post before :=
  Script.safe_onError safe emits_rollbackCommit fun _ _ => Counted.perform

private theorem safe_append (writer : Writer R) {buffer : List (List R)} (replace : Bool)
    (seals : PlansSealed valid choices writer buffer)
    (counted : Counted valid (Names choices) base before) :
    (do
      let _ ← (writer.tryCommit choices buffer replace).onError Writer.rollbackCommit
      Script.emit (.deleteIntent choices.txnId) : TableProgram R Unit).Safe (Counted valid nothing base)
        (fun _ after => Counted valid nothing base after) before := by
  refine Script.safe_bind ((safe_rolledBack (safe_tryCommit writer replace seals counted)).weaken
    fun _ _ counted => ?_)
  exact safe_deleteIntent (List.Subset.refl _) counted _

theorem safe_commit (seals : PlansSealed valid choices writer buffer)
    (counted : Counted valid (Names choices) base before) :
    (writer.commit choices buffer).Safe (Counted valid nothing base)
      (fun _ after => Counted valid nothing base after) before := by
  refine Script.safe_bind ((safe_loadCurrent (List.Subset.refl _) counted).weaken
    fun loaded _ counted => ?_)
  have still := counted.mono (List.subset_cons_self _ _) fun _ => id
  have settled := still.settle (List.Subset.refl _)
  exact Script.safe_ite (fun _ => Script.safe_pure settled settled) fun _ =>
    safe_append writer false seals still

theorem safe_replace (seals : PlansSealed valid choices writer buffer)
    (counted : Counted valid (Names choices) base before) :
    (writer.replace choices buffer).Safe (Counted valid nothing base)
      (fun _ after => Counted valid nothing base after) before := by
  refine Script.safe_bind ((safe_loadCurrent (List.Subset.refl _) counted).weaken
    fun loaded _ counted => ?_)
  exact safe_append writer true seals (counted.mono (List.subset_cons_self _ _) fun _ => id)

/-! ## Parquet files -/

theorem safe_tryCommitParquetFast {rows : List R} {sidecar : RowGroupMeta}
    (rows_eq : sidecar.rows = rows.length) (copies : Copies valid choices rows sidecar)
    (partitionValues : Option (HashMap String Scalar))
    (counted : Counted valid (Names choices) base before) :
    (writer.tryCommitParquetFast choices rows sidecar partitionValues).Safe (Counted valid nothing base)
      (fun _ after => Counted valid nothing base after) before := by
  refine Script.safe_bind ((safe_beginAppend writer (List.Subset.refl _) counted).weaken ?_)
  rintro ⟨latestSeq, current⟩ begun counted
  have inside : base ⊆ current.recordedCounts :: base := List.subset_cons_self _ _
  refine Script.safe_bind ((safe_writeIntent inside counted _ _).weaken fun _ _ counted => ?_)
  refine Script.safe_bind ((safe_note inside counted _).weaken fun _ _ counted => ?_)
  have stages : (Writer.stageAndRenameParquet choices rows
      { sidecar with rowIds := [.range current.nextRowId sidecar.rows] } 0 3).Emits
      (StorageEffect.Within (Touches choices (latestSeq + 1) current)) :=
    Writer.emits_stageAndRenameParquet _ _ _ _
  refine Script.safe_bind ((safe_of_lawful inside (stages.mono fun _ => lawful_of_touches)
    counted).strengthen.weaken ?_)
  rintro files staged ⟨run, counted⟩
  have copied := Writer.copied_of_ends_stageAndRenameParquet run
  obtain ⟨attempt, data_eq, sidecar_eq, found⟩ := copied.attempt
  refine Script.safe_bind ((safe_provided_writeIntent inside counted _ _ _).weaken ?_)
  rintro _ listed ⟨counted, files_eq⟩
  have settled := counted.settle inside
  refine Script.safe_bind (Script.safe_read settled ?_)
  have new : Parallel valid nothing listed
      ([Writer.newEntry current.nextFragmentId files].map RowGroupEntry.files,
        some [sidecar.rows]) := by
    apply parallel_of_forall₂
    apply List.Forall₂.cons _ .nil
    constructor
    · simp only [RowGroupEntry.files, Writer.newEntry, data_eq, sidecar_eq]
      exact kinds_of_rgId _ _
    · refine ⟨rows, resealed sidecar (choices.rgId 0 attempt) [.range current.nextRowId sidecar.rows],
        held_of_lookup ?_ ?_ rows_eq, ?_, rows_eq.symm⟩
      · exact files_eq ▸ copied.data
      · exact files_eq ▸ found
      · simp only [RowGroupEntry.files, Writer.newEntry, data_eq, sidecar_eq]
        exact copies _ _
  have known := (counted.settle (List.Subset.refl _)).parallel _ (.staged List.mem_cons_self)
  have tracked := settled.track (known.collect (.inl rfl) new)
  refine (safe_of_lawful (List.subset_cons_self _ _) (emits_completed writer _ _ ?_ ?_) tracked).weaken
    fun _ after counted => counted.settle (List.subset_cons_self _ _)
  · exact List.mem_cons_self
  · intro manifest
    exact Script.Emits.bind (Script.Emits.emit trivial) fun _ => Script.Emits.emit trivial

/-- A row group that refers to the data file of another one holds its rows. -/
theorem parallel_of_reference {existing : RowGroupEntry} {identical : RowGroupMeta}
    {rowIds : List RowIdSegment} (fragmentId : Nat) (listed : existing ∈ current.rowGroups)
    (shares : Shares valid choices)
    (known : Parallel valid (Names choices) after current.recordedCounts)
    (found : before.files.lookup existing.metaFile = some (.sidecar identical))
    (files_eq : after.files = before.files.insert (metaFilename (choices.rgId 0 0))
      (.sidecar (resealed identical (choices.rgId 0 0) rowIds))) :
    Parallel valid nothing after
      ([{ data := existing.data, metaFile := metaFilename (choices.rgId 0 0), fragmentId :
          RowGroupEntry }].map RowGroupEntry.files, some [identical.rows]) := by
  have member : existing.files ∈ current.recordedCounts.1 := List.mem_map_of_mem listed
  obtain ⟨rows, sidecar, held, promised⟩ := known.held _ member
  have apart : existing.metaFile ≠ metaFilename (choices.rgId 0 0) :=
    fun same => (known.foreign _ member).2 ⟨0, 0, .inr same⟩
  obtain rfl : identical = sidecar := by
    apply File.sidecar.inj
    apply held.sidecar_eq
    rw [files_eq]
    exact (AList.lookup_insert_ne apart).trans found
  apply parallel_of_forall₂
  apply List.Forall₂.cons _ .nil
  constructor
  · exact ⟨(known.kinds _ member).1, (kinds_of_rgId 0 0).2⟩
  · refine ⟨rows, resealed identical (choices.rgId 0 0) rowIds, ⟨held.data_eq, ?_, held.rows_eq⟩,
      shares _ rows identical rowIds promised, held.rows_eq.symm⟩
    intro contents other_found
    simp only [RowGroupEntry.files, files_eq, AList.lookup_insert] at other_found
    exact (Option.some.inj other_found).symm

theorem safe_appendReferenceRowGroup {existing : RowGroupEntry} (latestSeq : Nat)
    (partitionValues : Option (HashMap String Scalar)) (listed : existing ∈ current.rowGroups)
    (shares : Shares valid choices)
    (counted : Counted valid (Names choices) (current.recordedCounts :: base) before) :
    (writer.appendReferenceRowGroup choices existing latestSeq partitionValues current).Safe
      (Counted valid nothing base) (fun _ after => Counted valid nothing base after) before := by
  have inside : base ⊆ current.recordedCounts :: base := List.subset_cons_self _ _
  have member : existing.files ∈ current.recordedCounts.1 := List.mem_map_of_mem listed
  refine Script.safe_bind ((safe_of_lawful inside (emits_cleanupStaging _ _) counted).weaken
    fun _ cleaned counted => ?_)
  refine Script.safe_bind ((safe_of_lawful inside (Writer.emits_readSidecar _)
    counted).strengthen.weaken ?_)
  rintro identical _ ⟨run, counted⟩
  obtain ⟨found, rfl⟩ := ends_readSidecar.mp run
  have own_name : Names choices (metaFilename (choices.rgId 0 0)) := ⟨0, 0, .inr rfl⟩
  have settled := counted.settle inside
  have lawful : ∀ contents, Lawful (Names choices) (current.recordedCounts :: base)
      (.write (metaFilename (choices.rgId 0 0)) contents : StorageEffect (File R) (File R)) :=
    fun _ => .inr own_name
  refine Script.safe_bind ((safe_of_lawful inside (Script.Emits.emit (lawful _))
    counted).strengthen.weaken ?_)
  rintro _ written ⟨run, counted⟩
  obtain rfl := Script.ends_emit.mp run
  refine Script.safe_bind (Script.safe_read (counted.settle inside) ?_)
  have known := counted.parallel _ (.staged List.mem_cons_self)
  have new := parallel_of_reference current.nextFragmentId listed shares known found rfl
  have unowned := (counted.settle (List.Subset.refl _)).parallel _ (.staged List.mem_cons_self)
  have tracked := (counted.settle inside).track (unowned.collect (.inl rfl) new)
  refine (safe_of_lawful (List.subset_cons_self _ _) ?_ tracked).weaken
    fun _ after counted => counted.settle (List.subset_cons_self _ _)
  refine Script.Emits.bind (Writer.emits_buildSnapshotCheckpoint _ _) fun checkpoint => ?_
  refine Script.Emits.bind (Script.Emits.emit trivial) fun _ => ?_
  refine Script.Emits.bind_ends (emits_buildIndexesIntoManifest _ _ _ _ _) ?_
  rintro _ ⟨manifest, intentFiles⟩ _ run
  obtain ⟨⟨generations, rfl⟩, -⟩ := Writer.ends_buildIndexesIntoManifest run
  refine Script.Emits.bind ((Writer.within_writeCheckpoint _ _ _ _ _).mono fun _ within =>
    lawful_of_within (fun _ file => .inl (auxiliary_of_isSupport (.inr file.kind))) within)
    fun path => ?_
  exact Script.Emits.bind (emits_publish List.mem_cons_self) fun _ => Script.emits_pure _

/-- The sidecar of a Parquet file that is inserted, with the statistics of its footer. -/
def footerSidecar (writer : Writer R) (source : Writer.ParquetSource R)
    (columns : HashMap String ColumnStats) : RowGroupMeta :=
  { rowGroup := ""
    schemaId := writer.schema.schemaId
    rows := source.rows.length
    columns
    columnOffsets := source.columnOffsets
    sort := writer.schema.sort
    rowIds := []
    checksum := source.checksum
    metaChecksum := "" }

/-- A Parquet file that is inserted is as promised. -/
def Imports (valid : Validity R) (choices : Choices R) (writer : Writer R)
    (source : Writer.ParquetSource R) : Prop :=
  ∀ columns, source.footer = .ok (some columns) →
    Copies valid choices source.rows (footerSidecar writer source columns)

theorem safe_insertParquet {source : Writer.ParquetSource R}
    (imports : Imports valid choices writer source) (shares : Shares valid choices)
    (counted : Counted valid (Names choices) base before) :
    (writer.insertParquet choices source).Safe (Counted valid nothing base)
      (fun _ after => Counted valid nothing base after) before := by
  have settled := counted.settle (List.Subset.refl _)
  refine Script.safe_ite (fun _ => Script.safe_pure settled settled) fun _ => ?_
  refine Script.safe_bind (Script.safe_lift settled fun footer found => ?_)
  split
  · exact Script.safe_pure settled settled
  · next columns =>
      refine Script.safe_bind ((safe_loadCurrent (List.Subset.refl _) counted).weaken ?_)
      rintro ⟨latestSeq, current⟩ loaded counted
      have inside : base ⊆ current.recordedCounts :: base := List.subset_cons_self _ _
      refine Script.safe_bind ((safe_of_lawful inside (Writer.emits_findIdentical _ _)
        counted).strengthen.weaken ?_)
      rintro identical _ ⟨run, counted⟩
      obtain ⟨matching, rfl⟩ := Writer.ends_findIdentical run
      split
      · next existing =>
          apply safe_appendReferenceRowGroup writer latestSeq _ _ shares counted
          have member := List.mem_of_find?_eq_some matching
          split at member
          · exact member
          · cases member
      · have still := counted.mono inside fun _ => id
        refine Script.safe_bind ((safe_rolledBack (safe_tryCommitParquetFast writer rfl
          (imports columns found) _ still)).weaken fun _ _ counted => ?_)
        refine Script.safe_bind ((safe_deleteIntent (List.Subset.refl _) counted _).weaken
          fun _ _ counted => ?_)
        exact Script.safe_pure counted counted

end RowCounts

end IcefallDB
