import IcefallDB.Table.RowCounts.Steps

/-!
# Row counts along a run

Commits, mutations, folds of the log, collections and the parts of compactions, each of which may be
cut short at any point, keep everything that the table refers to accounted for.  So the row counts of
a live manifest are those of its row groups, one for each and in the same order.
-/

namespace IcefallDB

/-- The row counts of a manifest, if it has any, are those of its row groups, one for each and in the
same order: what is in the data file of a row group and in its sidecar has as many rows. -/
def Manifest.CountsRows {R : Type} (manifest : Manifest) (storage : TableStorage R) : Prop :=
  ∀ counts, manifest.rowCounts = some counts →
    List.Forall₂ (fun entry count =>
      (∀ rows, storage.files.lookup entry.data = some (.data rows) → rows.length = count) ∧
        ∀ sidecar, storage.files.lookup entry.metaFile = some (.sidecar sidecar) →
          sidecar.rows = count) manifest.rowGroups counts

namespace RowCounts

variable {R : Type} {staging : List Compactor.StagingState} {storage after : TableStorage R}
  {valid : Validity R}

/-- An action that the run may take: the identifiers that it draws are new, and a compaction goes on
from what it has staged. -/
def Permitted (staging : List Compactor.StagingState) (storage : TableStorage R) :
    TableAction R → Prop
  | .commit _ choices _ => New (Names choices) (staged staging) storage
  | .replace _ choices _ => New (Names choices) (staged staging) storage
  | .insertParquet _ choices _ => New (Names choices) (staged staging) storage
  | .mutate _ choices _ => New (Names choices) (staged staging) storage
  | .stageChunk _ choices _ _ state _ =>
      state ∈ staging ∧ New (RowGroupName choices state.chunks) (staged staging) storage
  | .publish _ _ _ _ _ state => state ∈ staging
  | _ => True

/-- A directory that a run reaches, with what its compactions have staged. -/
inductive Reached : List Compactor.StagingState → TableStorage R → Prop
  | created {storage : TableStorage R} (unpublished : storage.manifests = ∅)
      (unlogged : storage.log = []) : Reached [] storage
  /-- An action, up to any crash point. -/
  | act {staging : List Compactor.StagingState} {storage : TableStorage R}
      (reached : Reached staging storage) (action : TableAction R)
      (permitted : Permitted staging storage action) (steps : Nat) :
      Reached staging (action.program.crash storage steps)
  /-- A compaction begins to stage. -/
  | begin {staging : List Compactor.StagingState} {storage after : TableStorage R}
      (reached : Reached staging storage) (choices : Choices R) (pinned : Manifest)
      {state : Compactor.StagingState}
      (run : (Compactor.beginStaging choices pinned).Ends storage state after) :
      Reached (state :: staging) after
  /-- A compaction reads the row groups that it rewrites next. -/
  | read {staging : List Compactor.StagingState} {storage : TableStorage R}
      (reached : Reached staging storage) {state : Compactor.StagingState} (member : state ∈ staging)
      (inputRows : Nat) : Reached ({ state with inputRows } :: staging) storage
  /-- A compaction stages one more output row group. -/
  | stage {staging : List Compactor.StagingState} {storage after : TableStorage R}
      (reached : Reached staging storage) {compactor : Compactor R} {choices : Choices R}
      {schema : Schema} {partitionValues : Option (HashMap String Scalar)}
      {state next : Compactor.StagingState} {chunk : List R × List Nat}
      (permitted : Permitted staging storage
        (.stageChunk compactor choices schema partitionValues state chunk))
      (run : (compactor.stageChunk choices schema partitionValues state chunk).Ends storage next
        after) : Reached (next :: staging) after

/-- A run is a run of steps from a new table, with nothing pinned and nothing promised. -/
theorem Reached.steps (reached : Reached staging storage) :
    ∃ start : TableStorage R, (start.manifests = ∅ ∧ start.log = []) ∧
      Relation.ReflTransGen (Step (fun _ => True) []) ([], start) (staging, storage) := by
  induction reached with
  | @created start unpublished unlogged => exact ⟨start, ⟨unpublished, unlogged⟩, .refl⟩
  | @act staging storage _ action permitted steps ih =>
      obtain ⟨start, new, run⟩ := ih
      refine ⟨start, new, run.tail (.act action trivial ?_ steps)⟩
      cases action <;> exact permitted
  | begin _ choices pinned run ih =>
      obtain ⟨start, new, before⟩ := ih
      exact ⟨start, new, before.tail (.begin choices pinned run)⟩
  | read _ member inputRows ih =>
      obtain ⟨start, new, before⟩ := ih
      exact ⟨start, new, before.tail (.read member inputRows)⟩
  | stage _ permitted run ih =>
      obtain ⟨start, new, before⟩ := ih
      exact ⟨start, new, before.tail (.stage trivial permitted run)⟩

/-- A run keeps everything that the table refers to accounted for. -/
theorem Reached.counted (reached : Reached staging storage) :
    Counted (fun _ _ _ => True) nothing (staged staging) storage := by
  obtain ⟨start, ⟨unpublished, unlogged⟩, run⟩ := reached.steps
  exact counted_of_steps (keeps_true _ _) run
    (counted_of_empty unpublished unlogged)

theorem countsRows_of_parallel {manifest : Manifest}
    (parallel : Parallel valid nothing storage manifest.recordedCounts) : manifest.CountsRows storage := by
  intro counts recorded
  have beside := parallel.counted counts recorded
  rw [Manifest.recordedCounts, List.forall₂_map_left_iff] at beside
  exact beside.imp fun _ _ sized => ⟨sized.data, sized.sidecar⟩

/-- Whatever a run does, the live manifest, as readers and as writers load it, records a row count for
each of its row groups, in the same order, and these are the numbers of rows in their files. -/
theorem live_countsRows (reached : Reached staging storage) :
    (∀ live after, (Catalog.refresh Except.ok).Ends storage (some live) after →
      live.CountsRows after) ∧
    ∀ latestSeq current after, Writer.loadCurrent.Ends storage (latestSeq, current) after →
      current.CountsRows after := by
  have counted := reached.counted
  constructor
  · intro live after run
    exact countsRows_of_parallel (((safe_refresh counted).ends _ _ run).2 live rfl)
  · intro latestSeq current after run
    have loaded := (safe_loadCurrent (List.Subset.refl _) counted).ends _ _ run
    exact countsRows_of_parallel (loaded.parallel _ (.staged List.mem_cons_self))

/-- A commit of two rows and a delete of the first. -/
def action : Nat → TableAction Int
  | 0 => .commit Integers.writer (Integers.choices 0) [[10, 20]]
  | _ => .mutate Integers.writer (Integers.choices 1) (.delete (AList.singleton 0 [0]))

/-- The directory after the first actions, none of which has a hundred effects. -/
def directory : Nat → TableStorage Int
  | 0 => TableAction.created
  | count + 1 => (action count).program.crash (directory count) 100

private theorem call_eq_of_filename {call call' group group' attempt attempt' : Nat}
    {extension : String} (same : (Integers.choices call).rgId group attempt ++ extension =
      (Integers.choices call').rgId group' attempt' ++ extension) : call = call' := by
  have digits := congrArg String.toList same
  simp only [Choices.rgId, Integers.choices, String.toList_append, String.toList_ofList,
    List.append_cancel_left_eq, List.append_cancel_right_eq] at digits
  have pairs := zeroPad_toDigits_injective (by decide) (by decide) digits
  exact (Nat.pair_eq_pair.mp pairs).1

/-- Nothing is logged, and the manifests name the row groups of earlier calls only. -/
private abbrev NamedBefore (call : Nat) (storage : TableStorage Int) : Prop :=
  storage.log.isEmpty = true ∧
    ∀ found ∈ storage.manifests.entries, ∀ files ∈ found.2.recordedCounts.1,
      ∃ earlier < call,
        files = (dataFilename ((Integers.choices earlier).rgId 0 0),
          metaFilename ((Integers.choices earlier).rgId 0 0))

private theorem new_of_namedBefore {call : Nat} {storage : TableStorage Int}
    (named : NamedBefore call storage) :
    New (Names (Integers.choices call)) (staged []) storage := by
  intro recorded tracked files member
  cases tracked with
  | staged listed => cases listed
  | @manifest sequence manifest found =>
      obtain ⟨earlier, before, rfl⟩ :=
        named.2 ⟨sequence, manifest⟩ (AList.mem_lookup_iff.mp found) files member
      constructor
      · rintro ⟨group, attempt, same | same⟩
        · exact before.ne (call_eq_of_filename same)
        · have kinds := congrArg kindOf same
          rw [Choices.rgId, Choices.rgId, kindOf_dataFilename, kindOf_metaFilename] at kinds
          cases kinds
      · rintro ⟨group, attempt, same | same⟩
        · have kinds := congrArg kindOf same
          rw [Choices.rgId, Choices.rgId, kindOf_dataFilename, kindOf_metaFilename] at kinds
          cases kinds
        · exact before.ne (call_eq_of_filename same)
  | record listed =>
      rw [List.isEmpty_iff.mp named.1] at listed
      cases listed

private theorem run_directory : NamedBefore 1 (directory 1) ∧
    (Writer.loadCurrent (directory 2)).2.toOption.map
        (fun loaded => (loaded.2.rowCounts, loaded.2.rowGroups.map RowGroupEntry.deletedCount)) =
      some (some [2], [1]) := by
  decide +kernel

theorem deleted_countsRows : ∃ latestSeq current after,
    Writer.loadCurrent.Ends (directory 2) (latestSeq, current) after ∧
      current.rowCounts = some [2] ∧
      current.rowGroups.map RowGroupEntry.deletedCount = [1] ∧ current.CountsRows after := by
  have first : Reached [] (directory 1) :=
    .act (.created rfl rfl) (action 0)
      (new_of_namedBefore (by decide +kernel : NamedBefore 0 (directory 0))) 100
  have second : Reached [] (directory 2) :=
    .act first (action 1) (new_of_namedBefore run_directory.1) 100
  obtain ⟨⟨latestSeq, current⟩, loaded, recorded⟩ := Option.map_eq_some_iff.mp run_directory.2
  have run : Writer.loadCurrent.Ends (directory 2) (latestSeq, current)
      (Writer.loadCurrent.final (directory 2)) := by
    constructor
    · cases outcome : (Writer.loadCurrent (directory 2)).2 with
      | ok value =>
          rw [outcome] at loaded
          exact congrArg Except.ok (Option.some.inj loaded)
      | error failure =>
          rw [outcome] at loaded
          cases loaded
    · rfl
  exact ⟨latestSeq, current, _, run, congrArg Prod.fst recorded, congrArg Prod.snd recorded,
    (live_countsRows second).2 _ _ _ run⟩

end RowCounts

end IcefallDB
