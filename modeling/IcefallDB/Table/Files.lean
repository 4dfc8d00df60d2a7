import IcefallDB.Storage
import Mathlib.Data.Finset.Card

/-!
# Files of a table

The files of a table directory with their contents decoded, for rows of any type, the names the
engine gives them, and how the engine reads them.  The directory a name starts with, or the
extension it ends with, separates the kinds of files from each other.
-/

namespace IcefallDB

/-- Physical offsets of the rows of a fragment that are logically deleted. -/
abbrev DeletionVector : Type :=
  Finset Nat

namespace DeletionVector

/-- Mark offsets as deleted. -/
def unionOffsets (deletions : DeletionVector) (offsets : List Nat) : DeletionVector :=
  deletions ∪ offsets.toFinset

/-- Number of deleted offsets. -/
def cardinality (deletions : DeletionVector) : Nat :=
  Finset.card deletions

end DeletionVector

/-- The rows that a deletion vector leaves. -/
def liveRows {R : Type} (deletions : DeletionVector) (rows : List R) : List R :=
  (rows.zipIdx.filter fun row => row.2 ∉ deletions).map Prod.fst

@[simp]
theorem liveRows_empty {R : Type} (rows : List R) : liveRows ∅ rows = rows := by
  simp [liveRows, List.zipIdx_map_fst]

/-- Consecutive row ids that live at consecutive offsets of one fragment. -/
structure AddrSegment where
  startRowId : Nat
  fragmentId : Nat
  startOffset : Nat
  len : Nat
  deriving DecidableEq

/-- Decoded contents of a file of a table with rows of type `R`. -/
inductive File (R : Type)
  /-- A Parquet file. -/
  | data (rows : List R)
  /-- A `.meta` sidecar. -/
  | sidecar (contents : RowGroupMeta)
  /-- An `.agg` sidecar: the partial aggregates of the rows of a fragment. -/
  | aggregate (fragmentId : Nat) (contentHash : String) (rows : List R)
  /-- A `.del` file. -/
  | deletions (offsets : DeletionVector)
  /-- A row-index file. -/
  | rowIndex (segments : List AddrSegment)
  /-- A snapshot checkpoint. -/
  | checkpoint (contents : SnapshotCheckpoint)
  /-- The archive next to a snapshot checkpoint. -/
  | archive (contents : SnapshotCheckpoint)
  /-- A base of a secondary index, or a file derived from it. -/
  | indexBase (text : String)
  /-- A delta of a secondary index: entries to drop and entries to add. -/
  | indexDelta (tombstonedRowIds : List Nat) (adds : List (String × Nat))
  /-- A schema snapshot. -/
  | schema (schemaId : Nat)

/-- The directory of a table; its mutation log inlines decoded files. -/
abbrev TableStorage (R : Type) : Type :=
  Storage (File R) (File R)

/-- A program on the directory of a table. -/
abbrev TableProgram (R α : Type) : Type :=
  Program (File R) (File R) α

/-! ## Names -/

/-- Data file of a row group. -/
def dataFilename (rgId : String) : String :=
  rgId ++ ".parquet"

/-- Metadata sidecar of a row group. -/
def metaFilename (rgId : String) : String :=
  rgId ++ ".meta"

/-- Aggregate sidecar of a row group. -/
def aggFilename (rgId : String) : String :=
  rgId ++ ".agg"

/-- Schema snapshot with an id. -/
def schemaFilename (schemaId : Nat) : String :=
  "_schemas/" ++ String.ofList (zeroPad 6 (Nat.toDigits 10 schemaId)) ++ ".json"

/-- Staging place of a file before it is renamed to its final name. -/
def partPath (directory filename : String) : String :=
  "_staging/" ++ directory ++ "/" ++ filename ++ ".part"

/-- A version of the deletion vector of a fragment. -/
def deletionPath (fragmentId version : Nat) : String :=
  "_deletions/rg_" ++ String.ofList (zeroPad 16 (Nat.toDigits 16 fragmentId)) ++ "__v"
    ++ String.ofList (Nat.toDigits 10 version) ++ ".del"

/-- The version in the name of a deletion vector. -/
def parseVersion (path : String) : Option Nat :=
  let last := (afterLast "__v".toList path.toList).getD path.toList
  if ".del".toList.isSuffixOf last then parseU64 (last.take (last.length - 4)) else none

/-- A row-index file. -/
def rowIndexPath (stem : String) (sequence : Nat) : String :=
  "_rowindex/" ++ stem ++ "__v" ++ String.ofList (zeroPad 9 (Nat.toDigits 10 sequence)) ++ ".idx"

/-- Row-index delta of the commit with a sequence. -/
def rowIndexDeltaPath (sequence : Nat) : String :=
  rowIndexPath "delta" sequence

/-- Row-index base of the snapshot with a sequence. -/
def rowIndexBasePath (sequence : Nat) : String :=
  rowIndexPath "base" sequence

/-- The kinds of files that names tell apart. -/
inductive FileKind
  | data | sidecar | aggregate | deletions | rowIndex | checkpoint | index | schema | staging | other
  deriving DecidableEq

/-- The kind of a name, from its directory or its extension. -/
def kindOf (path : String) : FileKind :=
  let directory := path.toList.take 2
  let extension := path.toList.getLast?
  if directory = ['_', 'd'] then .deletions
  else if directory = ['_', 'r'] then .rowIndex
  else if directory = ['_', 'c'] then .checkpoint
  else if directory = ['_', 'i'] then .index
  else if directory = ['_', 's'] then
    if (path.toList.drop 2).head? = some 'c' then .schema else .staging
  else if directory = ['r', 'g'] then
    if extension = some 't' then .data
    else if extension = some 'a' then .sidecar
    else if extension = some 'g' then .aggregate
    else .other
  else .other

@[simp]
theorem kindOf_deletionPath (fragmentId version : Nat) :
    kindOf (deletionPath fragmentId version) = .deletions := by
  have directory : (deletionPath fragmentId version).toList.take 2 = ['_', 'd'] := by
    simp only [deletionPath, String.toList_append]
    rfl
  simp [kindOf, directory]

private theorem kindOf_rowIndexPath (stem : String) (sequence : Nat) :
    kindOf (rowIndexPath stem sequence) = .rowIndex := by
  have directory : (rowIndexPath stem sequence).toList.take 2 = ['_', 'r'] := by
    simp only [rowIndexPath, String.toList_append]
    rfl
  simp [kindOf, directory]

@[simp]
theorem kindOf_rowIndexDeltaPath (sequence : Nat) :
    kindOf (rowIndexDeltaPath sequence) = .rowIndex :=
  kindOf_rowIndexPath "delta" sequence

@[simp]
theorem kindOf_rowIndexBasePath (sequence : Nat) :
    kindOf (rowIndexBasePath sequence) = .rowIndex :=
  kindOf_rowIndexPath "base" sequence

@[simp]
theorem kindOf_checkpoint (sequence : Nat) :
    kindOf (SnapshotCheckpoint.filename sequence) = .checkpoint := by
  have directory : (SnapshotCheckpoint.filename sequence).toList.take 2 = ['_', 'c'] := by
    simp only [SnapshotCheckpoint.filename, String.toList_append]
    rfl
  simp [kindOf, directory]

@[simp]
theorem kindOf_archive (sequence : Nat) :
    kindOf (SnapshotCheckpoint.archiveFilename sequence) = .checkpoint := by
  have directory : (SnapshotCheckpoint.archiveFilename sequence).toList.take 2 = ['_', 'c'] := by
    simp only [SnapshotCheckpoint.archiveFilename, String.toList_append]
    rfl
  simp [kindOf, directory]

@[simp]
theorem kindOf_partPath (directory filename : String) :
    kindOf (partPath directory filename) = .staging := by
  have start : (partPath directory filename).toList.take 2 = ['_', 's'] := by
    simp only [partPath, String.toList_append]
    rfl
  have third : ((partPath directory filename).toList.drop 2).head? = some 't' := by
    simp only [partPath, String.toList_append]
    rfl
  simp [kindOf, start, third]

@[simp]
theorem kindOf_schemaFilename (schemaId : Nat) : kindOf (schemaFilename schemaId) = .schema := by
  have start : (schemaFilename schemaId).toList.take 2 = ['_', 's'] := by
    simp only [schemaFilename, String.toList_append]
    rfl
  have third : ((schemaFilename schemaId).toList.drop 2).head? = some 'c' := by
    simp only [schemaFilename, String.toList_append]
    rfl
  simp [kindOf, start, third]

private theorem kindOf_rowGroup {uuid suffix : String} {last : Char}
    (ends : suffix.toList.getLast? = some last) :
    kindOf ("rg_" ++ uuid ++ suffix) =
      if last = 't' then .data
      else if last = 'a' then .sidecar
      else if last = 'g' then .aggregate
      else .other := by
  have directory : ("rg_" ++ uuid ++ suffix).toList.take 2 = ['r', 'g'] := by
    simp only [String.toList_append]
    rfl
  have extension : ("rg_" ++ uuid ++ suffix).toList.getLast? = some last := by
    rw [String.toList_append, List.getLast?_append, ends]
    rfl
  simp only [kindOf, directory, extension, Option.some.injEq]
  rfl

@[simp]
theorem kindOf_dataFilename (uuid : String) : kindOf (dataFilename ("rg_" ++ uuid)) = .data := by
  have ends : ".parquet".toList.getLast? = some 't' := by decide
  rw [dataFilename, kindOf_rowGroup ends]
  rfl

@[simp]
theorem kindOf_metaFilename (uuid : String) :
    kindOf (metaFilename ("rg_" ++ uuid)) = .sidecar := by
  have ends : ".meta".toList.getLast? = some 'a' := by decide
  rw [metaFilename, kindOf_rowGroup ends]
  rfl

@[simp]
theorem kindOf_aggFilename (uuid : String) :
    kindOf (aggFilename ("rg_" ++ uuid)) = .aggregate := by
  have ends : ".agg".toList.getLast? = some 'g' := by decide
  rw [aggFilename, kindOf_rowGroup ends]
  rfl

theorem ne_of_kindOf_ne {left right : String} (different : kindOf left ≠ kindOf right) :
    left ≠ right :=
  fun same => different (congrArg kindOf same)

/-! ## Versions of deletion vectors -/

theorem parseVersion_deletionPath (fragmentId version : Nat) :
    parseVersion (deletionPath fragmentId version) =
      if version < 2 ^ 64 then some version else none := by
  let front := "_deletions/rg_".toList ++ zeroPad 16 (Nat.toDigits 16 fragmentId)
  let back := Nat.toDigits 10 version ++ ".del".toList
  have path_eq : (deletionPath fragmentId version).toList = front ++ ("__v".toList ++ back) := by
    simp [deletionPath, front, back, String.toList_append]
  have no_underscore : '_' ∉ back := by
    intro member
    rcases List.mem_append.mp member with digit | suffix
    · exact Nat.underscore_not_in_toDigits digit
    · exact absurd suffix (by decide)
  have here : afterLast "__v".toList ("__v".toList ++ back) = some back := by
    have after_v : afterLast ('_' :: ['_', 'v']) ('v' :: back) = none :=
      afterLast_eq_none (by simpa using no_underscore)
    have after_one : afterLast ('_' :: ['_', 'v']) ('_' :: 'v' :: back) = none := by
      rw [afterLast, after_v]
      rfl
    change afterLast ('_' :: ['_', 'v']) ('_' :: '_' :: 'v' :: back) = some back
    rw [afterLast, after_one]
    rfl
  have last_eq : (afterLast "__v".toList (deletionPath fragmentId version).toList).getD
      (deletionPath fragmentId version).toList = back := by
    rw [path_eq, afterLast_append_of_some here]
    rfl
  have suffix : ".del".toList.isSuffixOf back = true := by
    rw [List.isSuffixOf_iff_suffix]
    exact List.suffix_append _ _
  have digits : back.take (back.length - 4) = Nat.toDigits 10 version := by
    have length_eq : back.length - 4 = (Nat.toDigits 10 version).length := by
      simp [back]
    rw [length_eq, List.take_left]
  simp only [parseVersion, last_eq, suffix, if_true, digits]
  exact parseU64_toDigits version

/-- The next version of a deletion vector has a new name. -/
theorem deletionPath_succ_ne {path : String} {version : Nat} (parsed : parseVersion path = some version)
    (fragmentId : Nat) : deletionPath fragmentId (version + 1) ≠ path := by
  rintro rfl
  rw [parseVersion_deletionPath] at parsed
  split at parsed
  · have := Option.some.inj parsed
    omega
  · cases parsed

theorem deletionPath_fragment_injective {left right version version' : Nat}
    (same : deletionPath left version = deletionPath right version') : left = right := by
  have chars := congrArg String.toList same
  simp only [deletionPath, String.toList_append, String.toList_ofList, List.append_assoc] at chars
  have tails := List.append_cancel_left chars
  have digits : ∀ number : Nat, ∀ rest : List Char,
      (zeroPad 16 (Nat.toDigits 16 number) ++ ("__v".toList ++ rest)).takeWhile (· ≠ '_') =
        zeroPad 16 (Nat.toDigits 16 number) := by
    intro number rest
    have no_underscore := @underscore_not_mem_zeroPad 16 (by decide) (by decide) 16 number
    rw [List.takeWhile_append_of_pos]
    · simp
    · intro char member
      simpa using fun same : char = '_' => no_underscore (same ▸ member)
  have firsts := congrArg (List.takeWhile (· ≠ '_')) tails
  rw [digits, digits] at firsts
  exact zeroPad_toDigits_injective (by decide) (by decide) firsts

theorem rowIndexDeltaPath_injective {left right : Nat}
    (same : rowIndexDeltaPath left = rowIndexDeltaPath right) : left = right := by
  have chars := congrArg String.toList same
  simp only [rowIndexDeltaPath, rowIndexPath, String.toList_append, String.toList_ofList] at chars
  have digits := List.append_cancel_left (List.append_cancel_right chars)
  exact zeroPad_toDigits_injective (by decide) (by decide) digits

theorem rowIndexBasePath_ne_rowIndexDeltaPath (left right : Nat) :
    rowIndexBasePath left ≠ rowIndexDeltaPath right := by
  intro same
  have stems := congrArg (fun path : String => (path.toList.drop 10).head?) same
  simp [rowIndexBasePath, rowIndexDeltaPath, rowIndexPath, String.toList_append] at stems

end IcefallDB
