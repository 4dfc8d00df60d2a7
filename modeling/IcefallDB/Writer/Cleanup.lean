import IcefallDB.Table.Files
import IcefallDB.Writer.Load

/-!
# Cleaning up after a crash

Every commit first removes what crashed attempts left behind: the files their intents list, staged
parts, and manifest files above the committed sequence.  Files the caller passes as referenced are
spared when an intent lists them.
-/

namespace IcefallDB

variable {β φ : Type}

/-! ## What a manifest refers to -/

/-- The stem of an index base in JSON form. -/
def jsonStem (path : String) : Option String :=
  if ".json".toList.isSuffixOf path.toList then
    some (String.ofList (path.toList.take (path.toList.length - 5)))
  else none

/-- The base of an index together with the files derived from it. -/
def indexBaseFiles (base : String) : List String :=
  base ::
    match jsonStem base with
    | some stem => [stem ++ ".idx", stem ++ ".model"]
    | none => []

namespace Writer

/-- Files that cleanup must keep for a manifest. -/
def manifestReferencedFiles (manifest : Manifest) : List String :=
  manifest.rowGroups.flatMap (fun entry => [entry.data, entry.metaFile])
    ++ manifest.rowGroups.flatMap (fun entry => entry.deletes.toList ++ entry.agg.toList)
    ++ manifest.indexGenerations.entries.flatMap
      (fun entry => entry.2.base.toList.flatMap indexBaseFiles ++ entry.2.deltas)
    ++ manifest.rowindexGeneration.toList.flatMap (fun index => index.base.toList ++ index.deltas)
    ++ manifest.checkpoint.toList.flatMap
      (fun checkpoint => [checkpoint, SnapshotCheckpoint.archiveFilename manifest.sequence])

end Writer

namespace Compactor

/-- Files that the compactor's cleanup keeps for a manifest. -/
def referencedFiles (manifest : Manifest) : List String :=
  manifest.rowGroups.flatMap (fun entry => [entry.data, entry.metaFile])
    ++ manifest.rowGroups.flatMap (fun entry => entry.agg.toList)

end Compactor

/-- The files a manifest refers to, by kind. -/
inductive ReferencedBy (manifest : Manifest) : String → Prop
  | data {entry : RowGroupEntry} (member : entry ∈ manifest.rowGroups) :
      ReferencedBy manifest entry.data
  | sidecar {entry : RowGroupEntry} (member : entry ∈ manifest.rowGroups) :
      ReferencedBy manifest entry.metaFile
  | aggregate {entry : RowGroupEntry} {path : String} (member : entry ∈ manifest.rowGroups)
      (named : entry.agg = some path) : ReferencedBy manifest path
  | deletions {entry : RowGroupEntry} {path : String} (member : entry ∈ manifest.rowGroups)
      (named : entry.deletes = some path) : ReferencedBy manifest path
  | indexBase {index : IndexRef} {path : String} (name : String)
      (found : manifest.indexGenerations.lookup name = some index) (named : index.base = some path) :
      ReferencedBy manifest path
  | indexBinary {index : IndexRef} {path stem : String} (name : String)
      (found : manifest.indexGenerations.lookup name = some index) (named : index.base = some path)
      (json : jsonStem path = some stem) : ReferencedBy manifest (stem ++ ".idx")
  | indexModel {index : IndexRef} {path stem : String} (name : String)
      (found : manifest.indexGenerations.lookup name = some index) (named : index.base = some path)
      (json : jsonStem path = some stem) : ReferencedBy manifest (stem ++ ".model")
  | indexDelta {index : IndexRef} {path : String} (name : String)
      (found : manifest.indexGenerations.lookup name = some index) (member : path ∈ index.deltas) :
      ReferencedBy manifest path
  | rowIndexBase {index : RowIndexRef} {path : String}
      (found : manifest.rowindexGeneration = some index) (named : index.base = some path) :
      ReferencedBy manifest path
  | rowIndexDelta {index : RowIndexRef} {path : String}
      (found : manifest.rowindexGeneration = some index) (member : path ∈ index.deltas) :
      ReferencedBy manifest path
  | checkpoint {path : String} (found : manifest.checkpoint = some path) :
      ReferencedBy manifest path
  | archive {path : String} (found : manifest.checkpoint = some path) :
      ReferencedBy manifest (SnapshotCheckpoint.archiveFilename manifest.sequence)

variable {path : String}

private theorem mem_indexBaseFiles {base : String} :
    path ∈ indexBaseFiles base ↔
      path = base ∨ ∃ stem, jsonStem base = some stem ∧
        (path = stem ++ ".idx" ∨ path = stem ++ ".model") := by
  rw [indexBaseFiles, List.mem_cons]
  cases jsonStem base <;> simp

/-- The writer's cleanup keeps exactly the files its manifest refers to. -/
theorem mem_manifestReferencedFiles {manifest : Manifest} :
    path ∈ Writer.manifestReferencedFiles manifest ↔ ReferencedBy manifest path := by
  simp only [Writer.manifestReferencedFiles, List.mem_append, List.mem_flatMap, List.mem_cons,
    List.not_mem_nil, or_false, Option.mem_toList, mem_indexBaseFiles]
  constructor
  · rintro ((((⟨entry, member, rfl | rfl⟩ | ⟨entry, member, named | named⟩) |
      ⟨⟨name, index⟩, member, ⟨base, named, rfl | ⟨stem, json, rfl | rfl⟩⟩ | delta⟩) |
      ⟨index, found, named | delta⟩) | ⟨checkpoint, found, rfl | rfl⟩)
    · exact .data member
    · exact .sidecar member
    · exact .deletions member named
    · exact .aggregate member named
    · exact .indexBase name (AList.mem_lookup_iff.mpr member) named
    · exact .indexBinary name (AList.mem_lookup_iff.mpr member) named json
    · exact .indexModel name (AList.mem_lookup_iff.mpr member) named json
    · exact .indexDelta name (AList.mem_lookup_iff.mpr member) delta
    · exact .rowIndexBase found named
    · exact .rowIndexDelta found delta
    · exact .checkpoint found
    · exact .archive found
  · intro referenced
    cases referenced with
    | data member => exact .inl (.inl (.inl (.inl ⟨_, member, .inl rfl⟩)))
    | sidecar member => exact .inl (.inl (.inl (.inl ⟨_, member, .inr rfl⟩)))
    | deletions member named => exact .inl (.inl (.inl (.inr ⟨_, member, .inl named⟩)))
    | aggregate member named => exact .inl (.inl (.inl (.inr ⟨_, member, .inr named⟩)))
    | indexBase name found named =>
        exact .inl (.inl (.inr ⟨_, AList.mem_lookup_iff.mp found, .inl ⟨_, named, .inl rfl⟩⟩))
    | indexBinary name found named json =>
        exact .inl (.inl (.inr ⟨_, AList.mem_lookup_iff.mp found,
          .inl ⟨_, named, .inr ⟨_, json, .inl rfl⟩⟩⟩))
    | indexModel name found named json =>
        exact .inl (.inl (.inr ⟨_, AList.mem_lookup_iff.mp found,
          .inl ⟨_, named, .inr ⟨_, json, .inr rfl⟩⟩⟩))
    | indexDelta name found member =>
        exact .inl (.inl (.inr ⟨_, AList.mem_lookup_iff.mp found, .inr member⟩))
    | rowIndexBase found named => exact .inl (.inr ⟨_, found, .inl named⟩)
    | rowIndexDelta found member => exact .inl (.inr ⟨_, found, .inr member⟩)
    | checkpoint found => exact .inr ⟨_, found, .inl rfl⟩
    | archive found => exact .inr ⟨_, found, .inr rfl⟩

/-- The seal of a manifest does not matter for what it refers to. -/
theorem referencedBy_of_contents_eq {left right : Manifest} (same : left.contents = right.contents) :
    ReferencedBy left path ↔ ReferencedBy right path := by
  have files_eq : Writer.manifestReferencedFiles left.contents =
      Writer.manifestReferencedFiles right.contents := by rw [same]
  rw [← mem_manifestReferencedFiles, ← mem_manifestReferencedFiles]
  exact files_eq ▸ Iff.rfl

/-! ## Cleanup -/

/-- A `.part` file of a staging directory. -/
def isStagedPart (path : String) : Bool :=
  ["_staging/incoming/", "_staging/compact/"].any fun directory =>
    directory.toList.isPrefixOf path.toList &&
      !(path.toList.drop directory.toList.length).contains '/' &&
      ".part".toList.isSuffixOf path.toList

theorem kindOf_of_isStagedPart (part : isStagedPart path = true) : kindOf path = .staging := by
  simp only [isStagedPart, List.any_cons, List.any_nil, Bool.or_false, Bool.or_eq_true,
    Bool.and_eq_true] at part
  have under : ∃ directory rest, path.toList = '_' :: 's' :: 't' :: directory ++ rest := by
    rcases part with ⟨⟨inside, -⟩, -⟩ | ⟨⟨inside, -⟩, -⟩
    · obtain ⟨rest, path_eq⟩ := List.isPrefixOf_iff_prefix.mp inside
      exact ⟨"aging/incoming/".toList, rest, path_eq.symm⟩
    · obtain ⟨rest, path_eq⟩ := List.isPrefixOf_iff_prefix.mp inside
      exact ⟨"aging/compact/".toList, rest, path_eq.symm⟩
  obtain ⟨directory, rest, path_eq⟩ := under
  simp [kindOf, path_eq]

/-- Delete a file that an intent lists unless it is referenced. -/
def deleteUnreferenced (referenced : List String) (path : String) : Program β φ Unit :=
  if path ∈ referenced then pure () else Script.emit (.delete path)

/-- Remove the files of a stale intent, then the intent. -/
def recoverIntent (referenced : List String) (intent : String) (files : List String) :
    Program β φ Unit := do
  Script.each (deleteUnreferenced referenced) files
  Script.emit (.deleteIntent intent)

/-- Remove what crashed commits and compactions left behind. -/
def cleanupStaging (latestSeq : Nat) (referenced : List String) : Program β φ Unit := do
  let storage ← Script.read
  Script.each (fun entry => recoverIntent referenced entry.1 entry.2) storage.intents.entries
  Script.each (fun path => Script.emit (.delete path)) (storage.files.keys.filter isStagedPart)
  Script.each (fun sequence => Script.emit (.deleteManifest sequence))
    (storage.manifests.keys.filter fun sequence => sequence > latestSeq)

/-! ## What cleanup removes -/

/-- A map without some keys. -/
def eraseAll {κ ν : Type} [DecidableEq κ] (keys : List κ) (map : HashMap κ ν) : HashMap κ ν :=
  keys.foldl (fun current key => current.erase key) map

@[simp]
theorem lookup_eraseAll {κ ν : Type} [DecidableEq κ] (keys : List κ) (map : HashMap κ ν) (key : κ) :
    (eraseAll keys map).lookup key = if key ∈ keys then none else map.lookup key := by
  induction keys generalizing map with
  | nil => simp [eraseAll]
  | cons first keys ih =>
      have rest := ih (map.erase first)
      rw [eraseAll, List.foldl_cons]
      rw [eraseAll] at rest
      rw [rest]
      by_cases same : key = first
      · subst same
        simp
      · simp [same, AList.lookup_erase_ne same]

/-- The files of a list that are not referenced. -/
def unreferenced (referenced files : List String) : List String :=
  files.filter fun path => path ∉ referenced

/-- The directory that cleanup leaves. -/
def cleaned (latestSeq : Nat) (referenced : List String) (storage : Storage β φ) : Storage β φ :=
  { storage with
    files := eraseAll (storage.files.keys.filter isStagedPart)
      (eraseAll (storage.intents.entries.flatMap fun entry => unreferenced referenced entry.2)
        storage.files)
    intents := eraseAll storage.intents.keys storage.intents
    manifests := eraseAll
      (storage.manifests.keys.filter fun sequence => sequence > latestSeq) storage.manifests }

variable {referenced : List String} {before after : Storage β φ} {result : Unit}

private theorem ends_each_deleteUnreferenced {files : List String} :
    (Script.each (deleteUnreferenced referenced) files).Ends before result after ↔
      { before with files := eraseAll (unreferenced referenced files) before.files } = after := by
  induction files generalizing before with
  | nil => simp [unreferenced, eraseAll]
  | cons path files ih =>
      by_cases kept : path ∈ referenced
      · simp [deleteUnreferenced, kept, unreferenced, ih]
      · simp [deleteUnreferenced, kept, unreferenced, ih, Effect.perform, Storage.perform, eraseAll]

private theorem ends_each_recoverIntent {entries : List (Sigma fun _ : String => List String)} :
    (Script.each (fun entry => recoverIntent referenced entry.1 entry.2) entries).Ends before result
        after ↔
      { before with
        files := eraseAll (entries.flatMap fun entry => unreferenced referenced entry.2)
          before.files
        intents := eraseAll (entries.map Sigma.fst) before.intents } = after := by
  induction entries generalizing before with
  | nil => simp [eraseAll]
  | cons entry entries ih =>
      simp only [Script.ends_each_cons, ih]
      simp only [recoverIntent, Script.ends_bind, ends_each_deleteUnreferenced, Script.ends_emit]
      constructor
      · rintro ⟨_, ⟨_, _, rfl, rfl⟩, rfl⟩
        simp [eraseAll, Effect.perform, Storage.perform, List.foldl_append]
      · rintro rfl
        refine ⟨_, ⟨(), _, rfl, rfl⟩, ?_⟩
        simp [eraseAll, Effect.perform, Storage.perform, List.foldl_append]

@[simp]
theorem ends_each_delete {paths : List String} :
    (Script.each (fun path => Script.emit (.delete path)) paths : Program β φ Unit).Ends before
        result after ↔ { before with files := eraseAll paths before.files } = after := by
  induction paths generalizing before with
  | nil => simp [eraseAll]
  | cons path paths ih => simp [ih, eraseAll, Effect.perform, Storage.perform]

@[simp]
theorem ends_each_deleteManifest {sequences : List Nat} :
    (Script.each (fun sequence => Script.emit (.deleteManifest sequence)) sequences :
        Program β φ Unit).Ends before result after ↔
      { before with manifests := eraseAll sequences before.manifests } = after := by
  induction sequences generalizing before with
  | nil => simp [eraseAll]
  | cons sequence sequences ih => simp [ih, eraseAll, Effect.perform, Storage.perform]

/-- Cleanup always ends, and leaves the cleaned directory. -/
@[simp]
theorem ends_each_deleteIntent {intents : List String} :
    (Script.each (fun intent => Script.emit (.deleteIntent intent)) intents :
        Program β φ Unit).Ends before result after ↔
      { before with intents := eraseAll intents before.intents } = after := by
  induction intents generalizing before with
  | nil => simp [eraseAll]
  | cons intent intents ih => simp [ih, eraseAll, Effect.perform, Storage.perform]

theorem ends_cleanupStaging {latestSeq : Nat} :
    (cleanupStaging latestSeq referenced).Ends before result after ↔
      cleaned latestSeq referenced before = after := by
  simp only [cleanupStaging, Script.ends_bind, Script.ends_read, ends_each_recoverIntent,
    ends_each_delete, ends_each_deleteManifest]
  constructor
  · rintro ⟨_, _, ⟨rfl, rfl⟩, _, _, rfl, _, _, rfl, rfl⟩
    rfl
  · rintro rfl
    exact ⟨_, _, ⟨rfl, rfl⟩, (), _, rfl, (), _, rfl, rfl⟩

/-- Cleanup removes staged parts, and the files that intents list unless they are referenced. -/
def Removes (referenced : List String) (storage : Storage β φ) (path : String) : Prop :=
  isStagedPart path = true ∨
    path ∉ referenced ∧ ∃ intent files, storage.intents.lookup intent = some files ∧ path ∈ files

variable {storage : Storage β φ}

theorem mem_listed :
    (path ∈ storage.intents.entries.flatMap fun entry => unreferenced referenced entry.2) ↔
      path ∉ referenced ∧
        ∃ intent files, storage.intents.lookup intent = some files ∧ path ∈ files := by
  simp only [List.mem_flatMap, unreferenced, List.mem_filter, decide_eq_true_eq]
  constructor
  · rintro ⟨⟨intent, files⟩, member, listed, kept⟩
    exact ⟨kept, intent, files, AList.mem_lookup_iff.mpr member, listed⟩
  · rintro ⟨kept, intent, files, found, listed⟩
    exact ⟨⟨intent, files⟩, AList.mem_lookup_iff.mp found, listed, kept⟩

theorem lookup_cleaned_of_removes {latestSeq : Nat} (removed : Removes referenced storage path) :
    (cleaned latestSeq referenced storage).files.lookup path = none := by
  simp only [cleaned, lookup_eraseAll, List.mem_filter]
  rcases removed with part | listed
  · by_cases there : path ∈ storage.files.keys
    · rw [if_pos ⟨there, part⟩]
    · have absent : storage.files.lookup path = none := AList.lookup_eq_none.mpr there
      rw [absent]
      split <;> simp
  · rw [if_pos (mem_listed.mpr listed)]
    split <;> rfl

theorem lookup_cleaned {latestSeq : Nat} (kept : ¬Removes referenced storage path) :
    (cleaned latestSeq referenced storage).files.lookup path = storage.files.lookup path := by
  obtain ⟨not_part, not_listed⟩ := not_or.mp kept
  simp only [cleaned, lookup_eraseAll, List.mem_filter]
  rw [if_neg fun both => not_part both.2, if_neg (mt mem_listed.mp not_listed)]

end IcefallDB
