import IcefallDB.Table.RowCounts.Runs

/-!
# Reading a pinned snapshot

A reader keeps the manifest that it has loaded and reads its row groups later, while other processes
commit, mutate, compact and collect garbage.  The files of a row group are written once: the sidecar
is sealed and names the checksum of the rows.  So the reader is never told of a wrong checksum or of a
file that it cannot decode.  It gets the same rows whenever it reads, or finds that a file is gone.
-/

namespace IcefallDB

namespace RowCounts

variable {R : Type} {kernel : Kernel R} {allowed : TableAction R → Prop} {pins : List RecordedCounts}
  {staging next : List Compactor.StagingState} {storage after : TableStorage R} {valid : Validity R}

/-! ## What is written once -/

/-- The sidecar is sealed and names the checksum of the rows. -/
structure Intact (kernel : Kernel R) (rows : List R) (sidecar : RowGroupMeta) : Prop where
  checksum : sidecar.checksum = kernel.dataChecksum rows
  verified : sidecar.verifyMetaChecksum = true

variable {rows : List R} {sidecar : RowGroupMeta}

/-- The promise, and what two files were written with. -/
def Pinned (valid : Validity R) (files : String × String) (rows : List R) (sidecar : RowGroupMeta) :
    Validity R :=
  fun other otherRows otherSidecar =>
    valid other otherRows otherSidecar ∧ (other = files → otherRows = rows ∧ otherSidecar = sidecar)

/-- New names are not pinned, so what they are given is no matter of the pin. -/
theorem Keeps.pinned (keeps : Keeps valid allowed pins) {recorded : RecordedCounts}
    (listed : recorded ∈ pins) {files : String × String} (member : files ∈ recorded.1) (rows : List R)
    (sidecar : RowGroupMeta) : Keeps (Pinned valid files rows sidecar) allowed pins := by
  apply keeps.and
  intro other _ _ unpinned same
  exact absurd (congrArg Prod.snd same) (unpinned recorded listed files member)

/-- What the files of a tracked row group were written with can be pinned. -/
theorem Counted.pin {own : String → Prop} {listed : List RecordedCounts}
    (counted : Counted valid own listed storage) {files : String × String}
    (held : Held storage files rows sidecar) (promised : valid files rows sidecar) :
    Counted (Pinned valid files rows sidecar) own listed storage := by
  constructor
  · intro recorded tracked
    obtain ⟨kinds, foreign, each, beside⟩ := counted.parallel recorded tracked
    refine ⟨kinds, foreign, fun other member => ?_, beside⟩
    by_cases same : other = files
    · exact ⟨rows, sidecar, same ▸ held, same ▸ promised, fun _ => ⟨rfl, rfl⟩⟩
    · obtain ⟨otherRows, otherSidecar, otherHeld, kept⟩ := each other member
      exact ⟨otherRows, otherSidecar, otherHeld, kept, fun equal => absurd equal same⟩
  · exact counted.artifacts

/-! ## Reading -/

theorem readSnapshotFile_eq (snapshot : Nat) (path : String) (storage : TableStorage R) :
    Reader.readSnapshotFile snapshot path storage =
      ([], match storage.files.lookup path with
        | some contents => .ok contents
        | none => .error (.missingRowGroupFile snapshot path)) := by
  have reading : (Script.read : TableProgram R (TableStorage R)) storage = ([], .ok storage) := rfl
  rw [Reader.readSnapshotFile, Script.bind_of_silent reading]
  cases storage.files.lookup path <;> rfl

/-- A sidecar is read back as it was written, or it is gone. -/
theorem readVerifiedMeta_of_held (snapshot : Nat) {path : String}
    (held : ∀ contents, storage.files.lookup path = some contents → contents = .sidecar sidecar)
    (verified : sidecar.verifyMetaChecksum = true) :
    Reader.readVerifiedMeta snapshot path storage = ([], .ok sidecar) ∨
      storage.files.lookup path = none ∧ Reader.readVerifiedMeta snapshot path storage =
        ([], .error (.missingRowGroupFile snapshot path)) := by
  have read := readSnapshotFile_eq snapshot path storage
  cases found : storage.files.lookup path with
  | none =>
      rw [found] at read
      right
      rw [Reader.readVerifiedMeta, Script.bind_of_error (congrArg Prod.snd read), read]
      exact ⟨rfl, rfl⟩
  | some contents =>
      obtain rfl := held contents found
      rw [found] at read
      left
      rw [Reader.readVerifiedMeta, Script.bind_of_silent read]
      simp only [verified]
      rfl

/-- Appending two rows to a new table. -/
def firstAppend : TableAction Int :=
  .commit Integers.writer (Integers.choices 0) [[10, 20]]

/-- The directory after the append, which has 23 effects. -/
def appended : TableStorage Int :=
  firstAppend.program.crash TableAction.created 23

/-- The row group of the first append, as a scan plans it. -/
def appendedRowGroup : PlannedRowGroup :=
  { snapshot := 1
    entry :=
      { data := dataFilename ((Integers.choices 0).rgId 0 0)
        metaFile := metaFilename ((Integers.choices 0).rgId 0 0)
        fragmentId := 0
        agg := some (aggFilename ((Integers.choices 0).rgId 0 0)) }
    sidecar :=
      { rowGroup := (Integers.choices 0).rgId 0 0, schemaId := 1, rows := 2, columns := ∅
        columnOffsets := none, sort := none, rowIds := [], checksum := "", metaChecksum := "" }
    partitionValues := none }

private theorem refresh_and_read_appended :
    ((Catalog.refresh Except.ok appended).2.toOption.bind id).map (fun live => live.rowGroups) =
        some [appendedRowGroup.entry] ∧
      (Reader.readRowGroup Integers.kernel appendedRowGroup
        ((Catalog.refresh Except.ok).final appended)).2.toOption = some [10, 20] := by
  decide +kernel

/-- A reader loads the row group of the first append. -/
theorem exists_loaded_appended : ∃ live : Manifest, (Catalog.refresh Except.ok).Ends appended (some live)
    ((Catalog.refresh Except.ok).final appended) ∧ live.rowGroups = [appendedRowGroup.entry] := by
  obtain ⟨live, loaded, listed⟩ := Option.map_eq_some_iff.mp refresh_and_read_appended.1
  obtain ⟨found, refreshed, rfl⟩ := Option.bind_eq_some_iff.mp loaded
  refine ⟨live, ⟨?_, rfl⟩, listed⟩
  cases outcome : (Catalog.refresh Except.ok appended).2 with
  | ok value =>
      rw [outcome] at refreshed
      exact congrArg Except.ok (Option.some.inj refreshed)
  | error failure =>
      rw [outcome] at refreshed
      cases refreshed

theorem step_appended {allowed : TableAction Int → Prop} (allows : allowed firstAppend) :
    Step allowed [] ([], TableAction.created) ([], appended) := by
  have created : Counted (fun _ _ _ => True) (Names (Integers.choices 0)) [] TableAction.created :=
    counted_of_empty rfl rfl
  have admitted : Admitted ([] ++ staged []) [] TableAction.created firstAppend :=
    fun recorded tracked => (created.parallel recorded tracked).foreign
  exact .act firstAppend allows admitted 23

end RowCounts

end IcefallDB
