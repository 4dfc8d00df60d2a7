import IcefallDB.Table.Snapshot

/-!
# Directories that represent snapshots

A directory represents a snapshot when its live manifest and the files that manifest refers to hold
the snapshot's contents.  Staging new files only adds to a directory: it changes no file that the
live manifest refers to, and so what is represented stays.
-/

namespace IcefallDB

variable {R : Type}

/-! ## Contents -/

/-- The files of a row group hold the fragment. -/
structure Stores (storage : TableStorage R) (entry : RowGroupEntry) (fragment : Fragment R) :
    Prop where
  id : entry.fragmentId = fragment.id
  data : storage.files.lookup entry.data = some (.data (fragment.rows.map Prod.snd))
  sidecar : ∃ sidecar, storage.files.lookup entry.metaFile = some (.sidecar sidecar) ∧
    expand sidecar.rowIds = fragment.rows.map Prod.fst ∧ sidecar.rows = fragment.rows.length
  deletions : deletionsOf storage entry = some fragment.deleted

/-- The files of a generation hold the layers of the row index. -/
structure StoresIndex (storage : TableStorage R) (generation : RowIndexRef) (index : AddressMap) :
    Prop where
  base : (generation.base = none ∧ index.base = []) ∨
    ∃ path, generation.base = some path ∧
      storage.files.lookup path = some (.rowIndex index.base)
  deltas : List.Forall₂
    (fun path segments => storage.files.lookup path = some (.rowIndex segments))
    generation.deltas index.deltas

/-- The manifest and its files hold the snapshot. -/
structure Represents (storage : TableStorage R) (manifest : Manifest) (snapshot : Snapshot R) :
    Prop where
  fragments : List.Forall₂ (Stores storage) manifest.rowGroups snapshot.fragments
  nextFragmentId : manifest.nextFragmentId = snapshot.nextFragmentId
  nextRowId : manifest.nextRowId = snapshot.nextRowId
  rowIndex : Option.Rel (StoresIndex storage) manifest.rowindexGeneration snapshot.rowIndex

theorem Represents.fragmentIds {storage : TableStorage R} {manifest : Manifest}
    {snapshot : Snapshot R} (represents : Represents storage manifest snapshot) :
    manifest.rowGroups.map RowGroupEntry.fragmentId = snapshot.fragments.map Fragment.id := by
  have fragments := represents.fragments
  generalize manifest.rowGroups = entries, snapshot.fragments = contents at fragments
  induction fragments with
  | nil => rfl
  | cons stores _ ih => rw [List.map_cons, List.map_cons, stores.id, ih]

/-! ## Names -/

/-- The kinds of files that hold the contents of a table. -/
def FileKind.IsContent : FileKind → Prop
  | .data | .sidecar | .deletions | .rowIndex => True
  | _ => False

/-- A row group's files have the names that commits give them. -/
structure RowGroupEntry.Named (entry : RowGroupEntry) : Prop where
  data : kindOf entry.data = .data
  sidecar : kindOf entry.metaFile = .sidecar
  deletes : ∀ path, entry.deletes = some path →
    ∃ version, path = deletionPath entry.fragmentId version

/-- The files of a generation have the names that commits up to a sequence give them. -/
structure RowIndexRef.Named (sequence : Nat) (generation : RowIndexRef) : Prop where
  base : ∀ path, generation.base = some path →
    ∃ commit, path = rowIndexBasePath commit
  deltas : ∀ path ∈ generation.deltas, ∃ commit ≤ sequence, path = rowIndexDeltaPath commit

/-- The files of a manifest have the names that commits give them. -/
structure Manifest.Named (manifest : Manifest) : Prop where
  rowGroups : ∀ entry ∈ manifest.rowGroups, entry.Named
  rowIndex : ∀ generation, manifest.rowindexGeneration = some generation →
    generation.Named manifest.sequence

/-- The files that hold the contents of a manifest. -/
inductive Manifest.Holds (manifest : Manifest) : String → Prop
  | data {entry : RowGroupEntry} (member : entry ∈ manifest.rowGroups) :
      manifest.Holds entry.data
  | sidecar {entry : RowGroupEntry} (member : entry ∈ manifest.rowGroups) :
      manifest.Holds entry.metaFile
  | deletions {entry : RowGroupEntry} {path : String} (member : entry ∈ manifest.rowGroups)
      (named : entry.deletes = some path) : manifest.Holds path
  | rowIndexBase {generation : RowIndexRef} {path : String}
      (found : manifest.rowindexGeneration = some generation)
      (named : generation.base = some path) : manifest.Holds path
  | rowIndexDelta {generation : RowIndexRef} {path : String}
      (found : manifest.rowindexGeneration = some generation)
      (member : path ∈ generation.deltas) : manifest.Holds path

theorem Manifest.Holds.referencedBy {manifest : Manifest} {path : String}
    (holds : manifest.Holds path) : ReferencedBy manifest path := by
  cases holds with
  | data member => exact .data member
  | sidecar member => exact .sidecar member
  | deletions member named => exact .deletions member named
  | rowIndexBase found named => exact .rowIndexBase found named
  | rowIndexDelta found member => exact .rowIndexDelta found member

theorem Manifest.Holds.isContent {manifest : Manifest} {path : String}
    (holds : manifest.Holds path) (named : manifest.Named) : (kindOf path).IsContent := by
  cases holds with
  | data member => simp [(named.rowGroups _ member).data, FileKind.IsContent]
  | sidecar member => simp [(named.rowGroups _ member).sidecar, FileKind.IsContent]
  | deletions member deletes =>
      obtain ⟨version, rfl⟩ := (named.rowGroups _ member).deletes path deletes
      simp [FileKind.IsContent]
  | rowIndexBase found base =>
      obtain ⟨commit, rfl⟩ := (named.rowIndex _ found).base path base
      simp [FileKind.IsContent]
  | rowIndexDelta found member =>
      obtain ⟨commit, -, rfl⟩ := (named.rowIndex _ found).deltas path member
      simp [FileKind.IsContent]

/-- What a manifest represents depends only on the files that hold its contents. -/
theorem Represents.congr {before after : TableStorage R} {manifest : Manifest}
    {snapshot : Snapshot R} (represents : Represents before manifest snapshot)
    (kept : ∀ path contents, manifest.Holds path → before.files.lookup path = some contents →
      after.files.lookup path = some contents) : Represents after manifest snapshot where
  fragments := by
    refine (List.forall₂_iff_get.mp represents.fragments).elim fun length_eq stored => ?_
    refine List.forall₂_iff_get.mpr ⟨length_eq, fun index left right => ?_⟩
    have stores := stored index left right
    have member := List.get_mem manifest.rowGroups ⟨index, left⟩
    obtain ⟨sidecar, found, ids, rows⟩ := stores.sidecar
    refine ⟨stores.id, kept _ _ (.data member) stores.data,
      ⟨sidecar, kept _ _ (.sidecar member) found, ids, rows⟩, ?_⟩
    rcases deletionsOf_eq_some.mp stores.deletions with ⟨absent, same⟩ | ⟨path, named, found⟩
    · exact deletionsOf_eq_some.mpr (.inl ⟨absent, same⟩)
    · exact deletionsOf_eq_some.mpr
        (.inr ⟨path, named, kept _ _ (.deletions member named) found⟩)
  nextFragmentId := represents.nextFragmentId
  nextRowId := represents.nextRowId
  rowIndex := by
    have index_stored := represents.rowIndex
    cases generation_eq : manifest.rowindexGeneration with
    | none =>
        rw [generation_eq] at index_stored
        cases index_eq : snapshot.rowIndex with
        | none => exact .none
        | some index =>
            rw [index_eq] at index_stored
            cases index_stored
    | some generation =>
        rw [generation_eq] at index_stored
        cases index_eq : snapshot.rowIndex with
        | none =>
            rw [index_eq] at index_stored
            cases index_stored
        | some index =>
            rw [index_eq] at index_stored
            cases index_stored with
            | some stored =>
                refine .some ⟨?_, ?_⟩
                · rcases stored.base with absent | ⟨path, named, found⟩
                  · exact .inl absent
                  · exact .inr ⟨path, named, kept _ _ (.rowIndexBase generation_eq named) found⟩
                · obtain ⟨length_eq, found⟩ := List.forall₂_iff_get.mp stored.deltas
                  refine List.forall₂_iff_get.mpr ⟨length_eq, fun index left right => ?_⟩
                  have member := List.get_mem generation.deltas ⟨index, left⟩
                  exact kept _ _ (.rowIndexDelta generation_eq member) (found index left right)

end IcefallDB
