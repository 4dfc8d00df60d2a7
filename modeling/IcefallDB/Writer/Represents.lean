import IcefallDB.Mutators
import IcefallDB.Table.Represents
import IcefallDB.Writer.Agreement
import IcefallDB.Writer.Publish
import IcefallDB.Writer.Stage
import Mathlib

/-!
# What mutations write

A delete, an update or a merge leaves a directory in which its manifest represents the snapshot that
the change of its rows makes: the new versions of deletion vectors, the fragments and the row-index
delta are there under names of their own, and the files of the old manifest are as they were.
-/

namespace IcefallDB

variable {R : Type}

/-! ## Files that were written -/

/-- Files with contents are as before, but for those that were written, the last one first. -/
def Overlays (written : List (String × File R)) (before after : TableStorage R) : Prop :=
  ∀ path, (kindOf path).IsContent →
    after.files.lookup path = (written.lookup path).or (before.files.lookup path)

theorem Overlays.refl (storage : TableStorage R) : Overlays [] storage storage :=
  fun _ _ => rfl

theorem Overlays.trans {earlier later : List (String × File R)} {first second third : TableStorage R}
    (left : Overlays earlier first second) (right : Overlays later second third) :
    Overlays (later ++ earlier) first third := by
  intro path content
  rw [right path content, left path content, List.lookup_append, Option.or_assoc]

variable {written : List (String × File R)} {path : String}

/-- A name that is free afterwards was free before. -/
theorem Overlays.free {before after : TableStorage R} (overlays : Overlays written before after)
    (content : (kindOf path).IsContent) (free : after.files.lookup path = none) :
    before.files.lookup path = none := by
  rw [overlays path content, Option.or_eq_none_iff] at free
  exact free.2

theorem overlays_write (path : String) (contents : File R) (storage : TableStorage R) :
    Overlays [(path, contents)] storage (Effect.perform (.write path contents :
      StorageEffect (File R) (File R)) storage) := by
  intro other _
  by_cases same : other = path
  · subst same
    simp [Effect.perform, Storage.perform]
  · simp only [Effect.perform, Storage.perform, AList.lookup_insert_ne same, List.lookup_cons,
      beq_false_of_ne same, List.lookup_nil, Option.none_or]

/-- Files that hold no contents are not looked at. -/
theorem overlays_of_sameOutside {allowed : String → Prop} {before after : TableStorage R}
    (same : Storage.SameOutside allowed before after)
    (hidden : ∀ path, allowed path → ¬ (kindOf path).IsContent) : Overlays [] before after :=
  fun path content => same.files path fun inside => hidden path inside content

variable {contents : File R}

/-- Moving a staged file to its final name. -/
theorem overlays_of_ends_renameFile {directory filename target : String}
    {before after : TableStorage R}
    (run : (renameFile (partPath directory filename) target).Ends before () after)
    (staged : before.files.lookup (partPath directory filename) = some contents) :
    Overlays [(target, contents)] before after := by
  obtain ⟨moved, found, rfl⟩ := ends_renameFile.mp run
  obtain rfl := Option.some.inj (staged.symm.trans found)
  intro path content
  by_cases same : path = target
  · subst same
    simp
  · have not_part : path ≠ partPath directory filename := by
      rintro rfl
      simp [FileKind.IsContent] at content
    simp only [AList.lookup_insert_ne same, AList.lookup_erase_ne not_part, List.lookup_cons,
      beq_false_of_ne same, List.lookup_nil, Option.none_or]

theorem overlays_of_ends_each_write {ι : Type} {files : ι → String × File R} {items : List ι}
    {before after : TableStorage R}
    (run : (Script.each (fun item => Script.emit (.write (files item).1 (files item).2)) items :
      TableProgram R Unit).Ends before () after) :
    Overlays (items.map files).reverse before after := by
  induction items generalizing before with
  | nil =>
      obtain ⟨-, rfl⟩ := Script.ends_pure.mp run
      exact .refl before
  | cons item items ih =>
      obtain ⟨⟨⟩, written, write, run⟩ := Script.ends_bind.mp run
      obtain rfl := Script.ends_emit.mp write
      rw [List.map_cons, List.reverse_cons]
      exact (overlays_write _ _ before).trans (ih run)

theorem lookup_eq_none_of_forall_ne (different : ∀ file ∈ written, path ≠ file.1) :
    written.lookup path = none := by
  rw [List.lookup_eq_none_iff]
  intro file member
  exact bne_iff_ne.mpr (different file member)

/-- A file that was written with the same contents each time. -/
theorem lookup_of_mem (member : (path, contents) ∈ written)
    (unique : ∀ other, (path, other) ∈ written → other = contents) :
    written.lookup path = some contents := by
  induction written with
  | nil => cases member
  | cons file written ih =>
      obtain ⟨name, first⟩ := file
      by_cases same : path = name
      · subst same
        rw [List.lookup_cons_self, unique first List.mem_cons_self]
      · rw [List.lookup_cons, beq_false_of_ne same]
        have later : (path, contents) ∈ written := by
          rcases List.mem_cons.mp member with here | later
          · exact absurd (congrArg Prod.fst here) same
          · exact later
        exact ih later fun other listed => unique other (List.mem_cons_of_mem _ listed)

variable {manifest : Manifest}

/-- What was written does not touch the files that a manifest holds. -/
theorem Represents.of_overlays {before after : TableStorage R} {snapshot : Snapshot R}
    (represents : Represents before manifest snapshot) (named : manifest.Named)
    (overlays : Overlays written before after)
    (apart : ∀ file ∈ written, ∀ path, manifest.Holds path →
      (before.files.lookup path).isSome → path ≠ file.1) : Represents after manifest snapshot := by
  apply represents.congr
  intro path contents holds found
  rw [overlays path (holds.isContent named), lookup_eq_none_of_forall_ne, Option.none_or]
  · exact found
  · intro file member
    exact apart file member path holds (by rw [found, Option.isSome_some])

variable {loaded : TableStorage R}

/-- Cleaning up after crashed commits keeps what the current manifest represents. -/
theorem Represents.of_cleaned {snapshot : Snapshot R}
    (represents : Represents loaded manifest snapshot) (named : manifest.Named) (latestSeq : Nat) :
    Represents (cleaned latestSeq (Writer.manifestReferencedFiles manifest) loaded) manifest
      snapshot := by
  apply represents.congr
  intro path contents holds found
  rw [lookup_cleaned, found]
  intro removed
  rcases removed with part | ⟨unreferenced, -⟩
  · have content := holds.isContent named
    rw [kindOf_of_isStagedPart part] at content
    exact content
  · exact unreferenced (mem_manifestReferencedFiles.mpr holds.referencedBy)

/-! ## Located offsets -/

/-- An address as a location. -/
def matchLoc (address : Address) : MatchLoc :=
  { fragmentId := address.2.1, offset := address.2.2, rowId := address.1 }

/-- Offsets to delete from a fragment. -/
def requestedDeletions (byFragment : HashMap Nat (List Nat)) (fragmentId : Nat) : DeletionVector :=
  ((byFragment.lookup fragmentId).getD []).toFinset

private theorem getD_lookup_offsets (locs : List MatchLoc) (map : HashMap Nat (List Nat))
    (fragmentId : Nat) :
    ((locs.foldl (fun map loc => map.insert loc.fragmentId
        ((map.lookup loc.fragmentId).getD [] ++ [loc.offset])) map).lookup fragmentId).getD [] =
      (map.lookup fragmentId).getD [] ++
        (locs.filter fun loc => loc.fragmentId = fragmentId).map MatchLoc.offset := by
  induction locs generalizing map with
  | nil => simp
  | cons loc locs ih =>
      rw [List.foldl_cons, ih]
      by_cases same : loc.fragmentId = fragmentId
      · subst same
        simp
      · simp [same, AList.lookup_insert_ne (Ne.symm same)]

/-- Located offsets are requested by fragment. -/
theorem requestedDeletions_offsetsByFragment (addresses : List Address) :
    requestedDeletions (offsetsByFragment (addresses.map matchLoc)) =
      Snapshot.locatedOffsets (addresses.map Prod.snd) := by
  funext fragmentId
  rw [requestedDeletions, offsetsByFragment, getD_lookup_offsets, Snapshot.locatedOffsets]
  simp only [AList.lookup_empty, Option.getD_none, List.nil_append, List.filter_map, List.map_map,
    Function.comp_def, matchLoc]
  rfl

namespace Writer

variable {before after : TableStorage R} {byFragment : HashMap Nat (List Nat)}
  {entry : RowGroupEntry} {works : List DelWork}

theorem requestedDeletions_of_requestedOffsets {offsets : List Nat}
    (requested : requestedOffsets byFragment entry = some offsets) :
    requestedDeletions byFragment entry.fragmentId = offsets.toFinset := by
  obtain ⟨found, -⟩ := Option.filter_eq_some_iff.mp requested
  rw [requestedDeletions, found, Option.getD_some]

theorem requestedDeletions_of_none (unrequested : requestedOffsets byFragment entry = none) :
    requestedDeletions byFragment entry.fragmentId = ∅ := by
  rw [requestedDeletions]
  cases found : byFragment.lookup entry.fragmentId with
  | none => rfl
  | some offsets =>
      rw [requestedOffsets, found, Option.filter_some] at unrequested
      cases offsets with
      | nil => rfl
      | cons offset offsets => simp at unrequested

/-- A row group with its next deletion vector, if one is planned. -/
theorem stores_applyWork {fragment : Fragment R} (stores : Stores before entry fragment)
    (kept : Stores after entry fragment)
    (planned : ∀ work ∈ works, work.fragmentId = entry.fragmentId →
      work.PlannedFor before byFragment entry)
    (complete : (requestedOffsets byFragment entry).isSome →
      ∃ work ∈ works, work.fragmentId = entry.fragmentId)
    (written : ∀ work ∈ works, after.files.lookup work.path = some (.deletions work.deletions)) :
    Stores after (applyWork works entry)
      (fragment.delete (requestedDeletions byFragment fragment.id)) := by
  unfold applyWork
  split
  · next work found =>
      have member := List.mem_of_find?_eq_some found
      have same : work.fragmentId = entry.fragmentId := by simpa using List.find?_some found
      obtain ⟨offsets, old, requested, loaded, deletions_eq⟩ := (planned work member same).deletions
      obtain rfl := Option.some.inj (loaded.symm.trans stores.deletions)
      rw [← stores.id, requestedDeletions_of_requestedOffsets requested]
      constructor
      · exact stores.id
      · exact kept.data
      · exact kept.sidecar
      · apply deletionsOf_eq_some.mpr
        refine .inr ⟨work.path, rfl, ?_⟩
        rw [written work member, deletions_eq]
        rfl
  · next absent =>
      have unrequested : requestedOffsets byFragment entry = none := by
        rw [← Option.not_isSome_iff_eq_none]
        intro requested
        obtain ⟨work, member, same⟩ := complete requested
        have different := List.find?_eq_none.mp absent work member
        simp [same] at different
      have nothing : fragment.delete (requestedDeletions byFragment fragment.id) = fragment := by
        rw [← stores.id, requestedDeletions_of_none unrequested]
        simp [Fragment.delete]
      rw [nothing]
      exact kept

/-- The works of a manifest's row groups, in their order. -/
def Plans (storage : TableStorage R) (byFragment : HashMap Nat (List Nat))
    (entries : List RowGroupEntry) (works : List DelWork) : Prop :=
  List.Forall₂ (DelWork.PlannedFor storage byFragment)
    (entries.filter fun entry => (requestedOffsets byFragment entry).isSome) works

namespace Plans

variable {entries : List RowGroupEntry}

/-- Each work is planned for a row group. -/
theorem origin (plans : Plans before byFragment entries works) :
    ∀ work ∈ works, ∃ entry ∈ entries, work.PlannedFor before byFragment entry := by
  intro work member
  obtain ⟨index, bound, rfl⟩ := List.getElem_of_mem member
  obtain ⟨length_eq, pairs⟩ := List.forall₂_iff_get.mp plans
  refine ⟨_, List.mem_of_mem_filter (List.getElem_mem (length_eq ▸ bound)), ?_⟩
  exact pairs index (length_eq ▸ bound) bound

/-- A row group with offsets to delete has a work. -/
theorem complete (plans : Plans before byFragment entries works) (member : entry ∈ entries)
    (requested : (requestedOffsets byFragment entry).isSome) :
    ∃ work ∈ works, work.fragmentId = entry.fragmentId := by
  have listed : entry ∈ entries.filter fun entry => (requestedOffsets byFragment entry).isSome :=
    List.mem_filter.mpr ⟨member, requested⟩
  obtain ⟨index, bound, get_eq⟩ := List.getElem_of_mem listed
  obtain ⟨length_eq, pairs⟩ := List.forall₂_iff_get.mp plans
  have planned := pairs index bound (length_eq ▸ bound)
  refine ⟨_, List.get_mem works ⟨index, length_eq ▸ bound⟩, planned.fragmentId.trans ?_⟩
  exact congrArg RowGroupEntry.fragmentId get_eq

/-- With distinct fragment ids the work with a row group's id is planned for it. -/
theorem planned (plans : Plans before byFragment entries works)
    (distinct : (entries.map RowGroupEntry.fragmentId).Nodup) (member : entry ∈ entries)
    {work : DelWork} (work_member : work ∈ works) (same : work.fragmentId = entry.fragmentId) :
    work.PlannedFor before byFragment entry := by
  obtain ⟨origin, origin_member, planned⟩ := plans.origin work work_member
  obtain rfl := List.inj_on_of_nodup_map distinct origin_member member
    (planned.fragmentId.symm.trans same)
  exact planned

/-- Row groups with their next deletion vectors. -/
theorem stores {fragments : List (Fragment R)} (plans : Plans before byFragment entries works)
    (distinct : (entries.map RowGroupEntry.fragmentId).Nodup)
    (stored : List.Forall₂ (Stores before) entries fragments)
    (kept : List.Forall₂ (Stores after) entries fragments)
    (written : ∀ work ∈ works, after.files.lookup work.path = some (.deletions work.deletions)) :
    List.Forall₂ (Stores after) (entries.map (applyWork works))
      (fragments.map fun fragment =>
        fragment.delete (requestedDeletions byFragment fragment.id)) := by
  rw [List.forall₂_map_left_iff, List.forall₂_map_right_iff, List.forall₂_iff_get]
  obtain ⟨length_eq, kept⟩ := List.forall₂_iff_get.mp kept
  obtain ⟨-, stored⟩ := List.forall₂_iff_get.mp stored
  refine ⟨length_eq, fun index left right => ?_⟩
  have member := List.get_mem entries ⟨index, left⟩
  exact stores_applyWork (stored index left right) (kept index left right)
    (fun work work_member same => plans.planned distinct member work_member same)
    (plans.complete member) written

theorem fragmentIds (plans : Plans before byFragment entries works) :
    works.map DelWork.fragmentId =
      (entries.filter fun entry => (requestedOffsets byFragment entry).isSome).map
        RowGroupEntry.fragmentId := by
  unfold Plans at plans
  generalize entries.filter (fun entry => (requestedOffsets byFragment entry).isSome) = requested
    at plans
  induction plans with
  | nil => rfl
  | cons planned _ ih => rw [List.map_cons, List.map_cons, ih, planned.fragmentId]

/-- The works of distinct row groups have distinct paths. -/
theorem path_injective (plans : Plans before byFragment entries works)
    (distinct : (entries.map RowGroupEntry.fragmentId).Nodup) {left right : DelWork}
    (left_member : left ∈ works) (right_member : right ∈ works) (same : left.path = right.path) :
    left = right := by
  have works_distinct : (works.map DelWork.fragmentId).Nodup := by
    rw [plans.fragmentIds]
    exact distinct.sublist (List.filter_sublist.map _)
  obtain ⟨entry, -, planned⟩ := plans.origin left left_member
  obtain ⟨other, -, planned'⟩ := plans.origin right right_member
  obtain ⟨version, path_eq, -⟩ := planned.path
  obtain ⟨version', path_eq', -⟩ := planned'.path
  rw [path_eq, path_eq'] at same
  have ids_eq := deletionPath_fragment_injective same
  rw [← planned.fragmentId, ← planned'.fragmentId] at ids_eq
  exact List.inj_on_of_nodup_map works_distinct left_member right_member ids_eq

/-- No file that a manifest holds has the name of a next deletion vector. -/
theorem path_ne_of_holds (plans : Plans before byFragment manifest.rowGroups works)
    (named : manifest.Named) (distinct : (manifest.rowGroups.map RowGroupEntry.fragmentId).Nodup)
    {work : DelWork} (member : work ∈ works) (holds : manifest.Holds path) : path ≠ work.path := by
  obtain ⟨origin, origin_member, planned⟩ := plans.origin work member
  obtain ⟨version, path_eq, -⟩ := planned.path
  have kind : kindOf work.path = .deletions := by rw [path_eq, kindOf_deletionPath]
  cases holds with
  | data listed =>
      apply ne_of_kindOf_ne
      rw [(named.rowGroups _ listed).data, kind]
      decide
  | sidecar listed =>
      apply ne_of_kindOf_ne
      rw [(named.rowGroups _ listed).sidecar, kind]
      decide
  | @deletions entry path listed deletes =>
      rintro rfl
      obtain ⟨old, old_eq⟩ := (named.rowGroups _ listed).deletes _ deletes
      have ids_eq : entry.fragmentId = origin.fragmentId :=
        deletionPath_fragment_injective (old_eq.symm.trans path_eq)
      obtain rfl := List.inj_on_of_nodup_map distinct listed origin_member ids_eq
      exact planned.path_ne deletes
  | rowIndexBase found base =>
      obtain ⟨commit, rfl⟩ := (named.rowIndex _ found).base _ base
      apply ne_of_kindOf_ne
      rw [kindOf_rowIndexBasePath, kind]
      decide
  | rowIndexDelta found listed =>
      obtain ⟨commit, -, rfl⟩ := (named.rowIndex _ found).deltas _ listed
      apply ne_of_kindOf_ne
      rw [kindOf_rowIndexDeltaPath, kind]
      decide

end Plans

/-- No file that a manifest holds has the name of a later row-index delta. -/
theorem rowIndexDeltaPath_ne_of_holds (named : manifest.Named) {sequence : Nat}
    (later : manifest.sequence < sequence) (holds : manifest.Holds path) :
    path ≠ rowIndexDeltaPath sequence := by
  cases holds with
  | data listed =>
      apply ne_of_kindOf_ne
      rw [(named.rowGroups _ listed).data, kindOf_rowIndexDeltaPath]
      decide
  | sidecar listed =>
      apply ne_of_kindOf_ne
      rw [(named.rowGroups _ listed).sidecar, kindOf_rowIndexDeltaPath]
      decide
  | deletions listed deletes =>
      obtain ⟨version, rfl⟩ := (named.rowGroups _ listed).deletes _ deletes
      apply ne_of_kindOf_ne
      rw [kindOf_deletionPath, kindOf_rowIndexDeltaPath]
      decide
  | rowIndexBase found base =>
      obtain ⟨commit, rfl⟩ := (named.rowIndex _ found).base _ base
      exact rowIndexBasePath_ne_rowIndexDeltaPath commit sequence
  | rowIndexDelta found listed =>
      obtain ⟨commit, earlier, rfl⟩ := (named.rowIndex _ found).deltas _ listed
      intro same
      have := rowIndexDeltaPath_injective same
      omega

/-! ## What a mutation writes -/

/-- The files that a mutation writes. -/
inductive Writes (works : List DelWork) (delta : Option (String × List AddrSegment))
    (added : List (MergeFragment R)) : String × File R → Prop
  | deletions {work : DelWork} (member : work ∈ works) :
      Writes works delta added (work.path, .deletions work.deletions)
  | rowIndex {path : String} {segments : List AddrSegment} (given : delta = some (path, segments)) :
      Writes works delta added (path, .rowIndex segments)
  | data {fragment : MergeFragment R} (member : fragment ∈ added) :
      Writes works delta added (dataFilename fragment.rgId, .data fragment.rows)
  | sidecar {fragment : MergeFragment R} (member : fragment ∈ added) :
      Writes works delta added (metaFilename fragment.rgId, .sidecar fragment.sidecar)

theorem writes_iff {works : List DelWork} {delta : Option (String × List AddrSegment)}
    {added : List (MergeFragment R)} {file : String × File R} :
    Writes works delta added file ↔
      (∃ work ∈ works, (work.path, File.deletions work.deletions) = file) ∨
        (∃ entry ∈ delta, (entry.1, File.rowIndex entry.2) = file) ∨
          ∃ fragment ∈ added, file = (dataFilename fragment.rgId, .data fragment.rows) ∨
            file = (metaFilename fragment.rgId, .sidecar fragment.sidecar) := by
  constructor
  · intro writes
    cases writes with
    | deletions member => exact .inl ⟨_, member, rfl⟩
    | rowIndex given => exact .inr (.inl ⟨_, given, rfl⟩)
    | data member => exact .inr (.inr ⟨_, member, .inl rfl⟩)
    | sidecar member => exact .inr (.inr ⟨_, member, .inr rfl⟩)
  · rintro (⟨work, member, rfl⟩ | ⟨entry, given, rfl⟩ | ⟨fragment, member, rfl | rfl⟩)
    · exact .deletions member
    · exact .rowIndex given
    · exact .data member
    · exact .sidecar member

/-- A directory after a mutation of the current manifest has the files of new fragments, under names
that were free, next deletion vectors and perhaps a row-index delta. -/
structure Mutates (staged after : TableStorage R) (current : Manifest)
    (byFragment : HashMap Nat (List Nat)) (works : List DelWork)
    (delta : Option (String × List AddrSegment)) (added : List (MergeFragment R)) : Prop where
  plans : Plans staged byFragment current.rowGroups works
  overlays : ∃ written, Overlays written staged after ∧
    ∀ file, file ∈ written ↔ Writes works delta added file
  deltaName : ∀ path segments, delta = some (path, segments) →
    ∃ sequence, current.sequence < sequence ∧ path = rowIndexDeltaPath sequence
  named : ∀ fragment ∈ added, ∃ uuid, fragment.rgId = "rg_" ++ uuid
  distinct : (added.map MergeFragment.rgId).Nodup
  free : ∀ fragment ∈ added, staged.files.lookup (dataFilename fragment.rgId) = none ∧
    staged.files.lookup (metaFilename fragment.rgId) = none

namespace Mutates

variable {staged : TableStorage R} {current : Manifest} {delta : Option (String × List AddrSegment)}
  {added : List (MergeFragment R)} {snapshot : Snapshot R}

/-- The kind of a written file is that of its contents. -/
theorem kind_of_writes (mutates : Mutates staged after current byFragment works delta added)
    {file : String × File R} (writes : Writes works delta added file) :
    kindOf file.1 = match file.2 with
      | .data _ => .data
      | .sidecar _ => .sidecar
      | .deletions _ => .deletions
      | _ => .rowIndex := by
  cases writes with
  | deletions member =>
      obtain ⟨entry, -, planned⟩ := mutates.plans.origin _ member
      obtain ⟨version, path_eq, -⟩ := planned.path
      simp [path_eq]
  | rowIndex given =>
      obtain ⟨sequence, -, rfl⟩ := mutates.deltaName _ _ given
      simp
  | data member =>
      obtain ⟨uuid, named⟩ := mutates.named _ member
      simp [named, kindOf_dataFilename]
  | sidecar member =>
      obtain ⟨uuid, named⟩ := mutates.named _ member
      simp [named, kindOf_metaFilename]

/-- Two files of one name are the same, unless they are deletion vectors. -/
theorem eq_of_writes_of_kind (mutates : Mutates staged after current byFragment works delta added)
    {left right : String × File R} (writes : Writes works delta added left)
    (again : Writes works delta added right) (same : left.1 = right.1)
    (kind : kindOf left.1 ≠ .deletions) : left = right := by
  have kinds := (mutates.kind_of_writes writes).symm.trans
    ((congrArg kindOf same).trans (mutates.kind_of_writes again))
  cases writes with
  | deletions member => exact absurd (mutates.kind_of_writes (.deletions member)) kind
  | rowIndex given =>
      cases again with
      | deletions _ => cases kinds
      | rowIndex given' =>
          obtain ⟨rfl, rfl⟩ := Prod.mk.inj (Option.some.inj (given.symm.trans given'))
          rfl
      | data _ => cases kinds
      | sidecar _ => cases kinds
  | data member =>
      cases again with
      | deletions _ => cases kinds
      | rowIndex _ => cases kinds
      | data member' =>
          have ids_eq := eq_of_append_suffix same
          rw [List.inj_on_of_nodup_map mutates.distinct member member' ids_eq]
      | sidecar _ => cases kinds
  | sidecar member =>
      cases again with
      | deletions _ => cases kinds
      | rowIndex _ => cases kinds
      | data _ => cases kinds
      | sidecar member' =>
          have ids_eq := eq_of_append_suffix same
          rw [List.inj_on_of_nodup_map mutates.distinct member member' ids_eq]

theorem eq_of_writes (mutates : Mutates staged after current byFragment works delta added)
    (distinct : (current.rowGroups.map RowGroupEntry.fragmentId).Nodup)
    {left right : String × File R} (writes : Writes works delta added left)
    (again : Writes works delta added right) (same : left.1 = right.1) : left = right := by
  by_cases kind : kindOf left.1 = .deletions
  · have left_kind := (mutates.kind_of_writes writes).symm.trans kind
    have right_kind := (mutates.kind_of_writes again).symm.trans (same ▸ kind)
    cases writes with
    | deletions member =>
        cases again with
        | deletions member' => rw [mutates.plans.path_injective distinct member member' same]
        | rowIndex _ => cases right_kind
        | data _ => cases right_kind
        | sidecar _ => cases right_kind
    | rowIndex given => cases left_kind
    | data member => cases left_kind
    | sidecar member => cases left_kind
  · exact mutates.eq_of_writes_of_kind writes again same kind

private theorem lookup_of_unique
    (mutates : Mutates staged after current byFragment works delta added)
    (writes : Writes works delta added (path, contents))
    (unique : ∀ other, Writes works delta added (path, other) → other = contents) :
    after.files.lookup path = some contents := by
  obtain ⟨written, overlays, mem_written⟩ := mutates.overlays
  have content : (kindOf path).IsContent := by
    rw [show kindOf path = _ from mutates.kind_of_writes writes]
    cases contents <;> trivial
  rw [overlays path content, lookup_of_mem ((mem_written _).mpr writes), Option.some_or]
  exact fun other listed => unique other ((mem_written _).mp listed)

theorem lookup (mutates : Mutates staged after current byFragment works delta added)
    (distinct : (current.rowGroups.map RowGroupEntry.fragmentId).Nodup)
    (writes : Writes works delta added (path, contents)) :
    after.files.lookup path = some contents := by
  apply mutates.lookup_of_unique writes
  intro other again
  exact (Prod.mk.inj (mutates.eq_of_writes distinct again writes rfl)).2

/-- The files of new fragments are there, whatever the fragment ids are. -/
theorem lookup_added (mutates : Mutates staged after current byFragment works delta added)
    {fragment : MergeFragment R} (member : fragment ∈ added) :
    after.files.lookup (dataFilename fragment.rgId) = some (.data fragment.rows) ∧
      after.files.lookup (metaFilename fragment.rgId) = some (.sidecar fragment.sidecar) := by
  have unique : ∀ {path contents}, Writes works delta added (path, contents) →
      kindOf path ≠ .deletions → after.files.lookup path = some contents := by
    intro path contents writes kind
    apply mutates.lookup_of_unique writes
    intro other again
    exact (Prod.mk.inj (mutates.eq_of_writes_of_kind again writes rfl kind)).2
  constructor
  · apply unique (.data member)
    rw [mutates.kind_of_writes (.data member)]
    exact nofun
  · apply unique (.sidecar member)
    rw [mutates.kind_of_writes (.sidecar member)]
    exact nofun

/-- What the current manifest represents stays. -/
theorem represents_current (mutates : Mutates staged after current byFragment works delta added)
    (represents : Represents staged current snapshot) (named : current.Named)
    (distinct : (current.rowGroups.map RowGroupEntry.fragmentId).Nodup) :
    Represents after current snapshot := by
  obtain ⟨written, overlays, mem_written⟩ := mutates.overlays
  apply represents.of_overlays named overlays
  intro file listed path holds found
  cases (mem_written file).mp listed with
  | deletions member => exact mutates.plans.path_ne_of_holds named distinct member holds
  | rowIndex given =>
      obtain ⟨sequence, later, rfl⟩ := mutates.deltaName _ _ given
      exact rowIndexDeltaPath_ne_of_holds named later holds
  | data member =>
      rintro rfl
      rw [(mutates.free _ member).1] at found
      cases found
  | sidecar member =>
      rintro rfl
      rw [(mutates.free _ member).2] at found
      cases found

/-- The files of a new fragment hold its rows. -/
structure Contains (fragment : MergeFragment R) (contents : List (Nat × R)) : Prop where
  rows : fragment.rows = contents.map Prod.snd
  ids : expand fragment.sidecar.rowIds = contents.map Prod.fst
  count : fragment.sidecar.rows = contents.length

theorem stores_added (mutates : Mutates staged after current byFragment works delta added)
    (distinct : (current.rowGroups.map RowGroupEntry.fragmentId).Nodup)
    {fragments : List (MergeFragment R)} (listed : ∀ fragment ∈ fragments, fragment ∈ added)
    {contents : List (List (Nat × R))} (contains : List.Forall₂ Contains fragments contents)
    {fragmentId : Nat}
    (ids : fragments.map MergeFragment.fragmentId = List.range' fragmentId fragments.length) :
    List.Forall₂ (Stores after) (fragments.map MergeFragment.entry)
      (newFragments fragmentId contents) := by
  induction contains generalizing fragmentId with
  | nil => exact .nil
  | @cons fragment rows fragments contents first _ ih =>
      rw [List.map_cons, List.length_cons, List.range'_succ] at ids
      obtain ⟨id_eq, ids⟩ := List.cons.inj ids
      have member := listed fragment List.mem_cons_self
      apply List.Forall₂.cons
      · constructor
        · exact id_eq
        · rw [← first.rows]
          exact mutates.lookup distinct (.data member)
        · exact ⟨fragment.sidecar, mutates.lookup distinct (.sidecar member), first.ids, first.count⟩
        · rfl
      · exact ih (fun other later => listed other (List.mem_cons_of_mem _ later)) ids

/-- The row groups of a mutated manifest hold what is left of the old fragments, and the new
ones. -/
theorem stores (mutates : Mutates staged after current byFragment works delta added)
    (represents : Represents staged current snapshot) (named : current.Named)
    (wellFormed : snapshot.WellFormed) {contents : List (List (Nat × R))}
    (contains : List.Forall₂ Contains added contents)
    (ids : added.map MergeFragment.fragmentId = List.range' current.nextFragmentId added.length) :
    List.Forall₂ (Stores after)
      (current.rowGroups.map (applyWork works) ++ added.map MergeFragment.entry)
      ((snapshot.delete (requestedDeletions byFragment)).fragments ++
        newFragments snapshot.nextFragmentId contents) := by
  have distinct : (current.rowGroups.map RowGroupEntry.fragmentId).Nodup := by
    rw [represents.fragmentIds]
    exact wellFormed.fragmentIds_nodup
  have kept := mutates.represents_current represents named distinct
  apply List.rel_append
  · exact mutates.plans.stores distinct represents.fragments kept.fragments fun work member =>
      mutates.lookup distinct (.deletions member)
  · rw [← represents.nextFragmentId]
    exact mutates.stores_added distinct (fun _ member => member) contains ids

/-- A generation with one more delta. -/
theorem storesIndex_pushDelta (mutates : Mutates staged after current byFragment works delta added)
    (represents : Represents staged current snapshot) (named : current.Named)
    (distinct : (current.rowGroups.map RowGroupEntry.fragmentId).Nodup)
    {segments : List AddrSegment} (given : delta = some (path, segments)) :
    StoresIndex after (pushDelta current.rowindexGeneration path)
      { snapshot.rowIndex.getD {} with
        deltas := (snapshot.rowIndex.getD {}).deltas ++ [segments] } := by
  have written := mutates.lookup distinct (.rowIndex given)
  have kept := (mutates.represents_current represents named distinct).rowIndex
  generalize current.rowindexGeneration = generation, snapshot.rowIndex = index at kept
  cases kept with
  | none =>
      constructor
      · exact .inl ⟨rfl, rfl⟩
      · exact .cons written .nil
  | some stored =>
      constructor
      · exact stored.base
      · exact List.rel_append stored.deltas (.cons written .nil)

end Mutates

/-! ## Steps of a mutation -/

variable {writer : Writer R} {fragment : MergeFragment R}

theorem contains_of_computeRowGroupMeta {contents : List (Nat × R)} {segments : List RowIdSegment}
    (computed : writer.computeRowGroupMeta fragment.rgId fragment.rows segments =
      .ok fragment.sidecar) (rows : fragment.rows = contents.map Prod.snd)
    (ids : expand segments = contents.map Prod.fst) : Mutates.Contains fragment contents := by
  obtain ⟨⟨columns, columnOffsets⟩, -, made⟩ := Script.except_bind_eq_ok.mp computed
  have sidecar_eq := Except.ok.inj made
  constructor
  · exact rows
  · rw [← ids, ← sidecar_eq]
  · rw [← sidecar_eq, rows]
    exact List.length_map _

theorem overlays_writePart (directory filename : String) (contents : File R)
    (storage : TableStorage R) :
    Overlays [] storage (Effect.perform (.write (partPath directory filename) contents :
      StorageEffect (File R) (File R)) storage) := by
  intro path content
  have not_part : path ≠ partPath directory filename := by
    rintro rfl
    simp [FileKind.IsContent] at content
  simp [Effect.perform, Storage.perform, AList.lookup_insert_ne not_part]

/-- A data file and a sidecar that are staged. -/
structure StagedParts (storage : TableStorage R) (fragment : MergeFragment R) : Prop where
  data : storage.files.lookup (partPath "incoming" (dataFilename fragment.rgId)) =
    some (.data fragment.rows)
  sidecar : storage.files.lookup (partPath "incoming" (metaFilename fragment.rgId)) =
    some (.sidecar fragment.sidecar)

theorem lookup_of_not_fileExists {storage : TableStorage R}
    (absent : storage.fileExists path = false) : storage.files.lookup path = none := by
  rw [Storage.fileExists] at absent
  simpa using absent

theorem partPath_metaFilename_ne (directory rgId : String) :
    partPath directory (metaFilename rgId) ≠ partPath directory (dataFilename rgId) := by
  intro same
  have suffixes := eq_of_append_stem (partPath_injective same)
  revert suffixes
  decide

theorem stagedParts_of_writes (fragment : MergeFragment R) (storage : TableStorage R) :
    StagedParts (Effect.perform (.write (partPath "incoming" (metaFilename fragment.rgId))
        (.sidecar fragment.sidecar) : StorageEffect (File R) (File R))
      (Effect.perform (.write (partPath "incoming" (dataFilename fragment.rgId))
        (.data fragment.rows) : StorageEffect (File R) (File R)) storage)) fragment := by
  have different := partPath_metaFilename_ne "incoming" fragment.rgId
  constructor
  · simp [Effect.perform, Storage.perform, AList.lookup_insert_ne different.symm]
  · simp [Effect.perform, Storage.perform]

/-- Staged files under their final names. -/
theorem overlays_promote {before between after : TableStorage R}
    (named : ∃ uuid, fragment.rgId = "rg_" ++ uuid) (parts : StagedParts before fragment)
    (first : (renameFile (partPath "incoming" (dataFilename fragment.rgId))
      (dataFilename fragment.rgId)).Ends before () between)
    (second : (renameFile (partPath "incoming" (metaFilename fragment.rgId))
      (metaFilename fragment.rgId)).Ends between () after) :
    Overlays [(metaFilename fragment.rgId, .sidecar fragment.sidecar),
      (dataFilename fragment.rgId, .data fragment.rows)] before after := by
  obtain ⟨uuid, rgId_eq⟩ := named
  have not_final : dataFilename fragment.rgId ≠
      partPath "incoming" (metaFilename fragment.rgId) := by
    apply final_ne_part
    rw [rgId_eq, kindOf_dataFilename]
    decide
  have still := (lookup_of_ends_renameFile first).2 _
    (partPath_metaFilename_ne "incoming" fragment.rgId) not_final.symm
  exact (overlays_of_ends_renameFile first parts.data).trans
    (overlays_of_ends_renameFile second (still.trans parts.sidecar))

theorem overlays_writeDeletions
    (run : (Script.each writeDeletions works : TableProgram R Unit).Ends before () after) :
    Overlays (works.map fun work : DelWork => (work.path, File.deletions work.deletions)).reverse
      before after :=
  overlays_of_ends_each_write run

theorem overlays_each_writeIndex {paths : List String} {segments : List AddrSegment}
    (run : (Script.each (fun path => Script.emit (.write path (.rowIndex segments))) paths :
      TableProgram R Unit).Ends before () after) :
    Overlays (paths.map fun path => (path, File.rowIndex segments)).reverse before after :=
  overlays_of_ends_each_write run

/-- A program that only writes index files. -/
theorem overlays_of_emits {α : Type} {script : TableProgram R α} {value : α}
    (emits : script.Emits (StorageEffect.Within fun path => kindOf path = .index))
    (run : script.Ends before value after) : Overlays [] before after := by
  apply overlays_of_sameOutside (sameOutside_of_emits emits run)
  intro path index content
  rw [index] at content
  exact content

/-- An intent is no file of the table. -/
theorem overlays_writeIntent {intent : String} {files : List String} (storage : TableStorage R) :
    Overlays [] storage (Effect.perform (.writeIntent intent files :
      StorageEffect (File R) (File R)) storage) :=
  fun _ _ => rfl

theorem overlays_provided_writeIntent {condition : Bool} {intent : String} {files : List String}
    (run : (Script.provided condition (Script.emit (.writeIntent intent files)) :
      TableProgram R Unit).Ends before () after) : Overlays [] before after := by
  refine overlays_of_emits ?_ run
  exact Script.Emits.provided fun _ => Script.Emits.emit trivial

/-! ## Updates -/

theorem staged_of_ends_stagePatch
    (run : (stagePatch fragment.rgId fragment.rows fragment.sidecar).Ends before () after) :
    Overlays [] before after ∧ StagedParts after fragment ∧
      after.files.lookup (dataFilename fragment.rgId) = none ∧
      after.files.lookup (metaFilename fragment.rgId) = none := by
  obtain ⟨_, _, data, run⟩ := Script.ends_bind.mp run
  obtain rfl := Script.ends_emit.mp data
  obtain ⟨_, _, sidecar, run⟩ := Script.ends_bind.mp run
  obtain rfl := Script.ends_emit.mp sidecar
  obtain ⟨_, _, reading, run⟩ := Script.ends_bind.mp run
  obtain ⟨rfl, rfl⟩ := Script.ends_read.mp reading
  obtain ⟨free, rfl⟩ := Script.ends_ensure.mp run
  rw [Bool.not_eq_true', Bool.or_eq_false_iff] at free
  have overlays := (overlays_writePart "incoming" (dataFilename fragment.rgId)
    (.data fragment.rows) before).trans (overlays_writePart "incoming" (metaFilename fragment.rgId)
      (.sidecar fragment.sidecar) _)
  exact ⟨overlays, stagedParts_of_writes fragment before, lookup_of_not_fileExists free.1,
    lookup_of_not_fileExists free.2⟩

/-- The patch fragment of an update. -/
def updatePatch (choices : Choices R) (current : Manifest) (sorted : List (MatchLoc × R))
    (sidecar : RowGroupMeta) : MergeFragment R :=
  { rgId := choices.rgId 0 0, fragmentId := current.nextFragmentId
    rows := sorted.map Prod.snd, sidecar }

variable {choices : Choices R} {prepared : PreparedMutation R}

theorem mutates_prepareUpdate {sorted : List (MatchLoc × R)} {setColumns : List String}
    (run : (writer.prepareUpdate choices sorted setColumns).Ends before prepared after) :
    ∃ latestSeq loaded, loadCurrent.Ends before (latestSeq, prepared.current) loaded ∧
      ∃ staged, Overlays [] (cleaned latestSeq (manifestReferencedFiles prepared.current) loaded)
        staged ∧
      ∃ sidecar, writer.computeRowGroupMeta (choices.rgId 0 0) (sorted.map Prod.snd)
        [.sorted ((sorted.map Prod.fst).map MatchLoc.rowId)] = .ok sidecar ∧
      ∃ works, (prepared.current.sequence ≤ latestSeq →
        Mutates staged after prepared.current (offsetsByFragment (sorted.map Prod.fst)) works
          (some (rowIndexDeltaPath (latestSeq + 1),
            sortSegments (patchSegments prepared.current.nextFragmentId
              ((sorted.map Prod.fst).map MatchLoc.rowId))))
          [updatePatch choices prepared.current sorted sidecar]) ∧
      prepared.manifest.rowGroups = prepared.current.rowGroups.map (applyWork works) ++
        [(updatePatch choices prepared.current sorted sidecar).entry] ∧
      prepared.manifest.nextRowId = prepared.current.nextRowId ∧
      prepared.manifest.nextFragmentId = prepared.current.nextFragmentId + 1 ∧
      prepared.manifest.rowindexGeneration = some (pushDelta prepared.current.rowindexGeneration
        (rowIndexDeltaPath (latestSeq + 1))) := by
  obtain ⟨⟨latestSeq, current⟩, begun, start, run⟩ := Script.ends_bind.mp run
  obtain ⟨loaded, load, rfl, -⟩ := ends_beginMutation.mp start
  obtain ⟨sidecar, _, sealed, run⟩ := Script.ends_bind.mp run
  obtain ⟨computed, rfl⟩ := Script.ends_lift.mp sealed
  obtain ⟨_, staged, stage, run⟩ := Script.ends_bind.mp run
  obtain ⟨works, _, plan, run⟩ := Script.ends_bind.mp run
  obtain ⟨rfl, plans⟩ := plannedFor_of_ends_planDeletions plan
  obtain ⟨_, _, intent, run⟩ := Script.ends_bind.mp run
  obtain rfl := Script.ends_emit.mp intent
  obtain ⟨_, _, first, run⟩ := Script.ends_bind.mp run
  obtain ⟨_, _, second, run⟩ := Script.ends_bind.mp run
  obtain ⟨_, _, wrote, run⟩ := Script.ends_bind.mp run
  obtain ⟨_, _, delta, run⟩ := Script.ends_bind.mp run
  obtain rfl := Script.ends_emit.mp delta
  obtain ⟨_, _, reading, run⟩ := Script.ends_bind.mp run
  obtain ⟨rfl, rfl⟩ := Script.ends_read.mp reading
  obtain ⟨done, _, maintain, run⟩ := Script.ends_bind.mp run
  obtain ⟨maintained, rfl⟩ := Script.ends_lift.mp maintain
  obtain ⟨_, _, index, run⟩ := Script.ends_bind.mp run
  obtain ⟨_, _, noting, run⟩ := Script.ends_bind.mp run
  obtain ⟨rfl, rfl⟩ := Script.ends_pure.mp run
  let patch := updatePatch choices current sorted sidecar
  have stage : (stagePatch patch.rgId patch.rows patch.sidecar).Ends _ () staged := stage
  obtain ⟨staging, parts, free⟩ := staged_of_ends_stagePatch stage
  have still : StagedParts (Effect.perform (.writeIntent choices.txnId
      ([dataFilename (choices.rgId 0 0), metaFilename (choices.rgId 0 0)] ++
        works.map DelWork.path ++ [rowIndexDeltaPath (latestSeq + 1)]) :
      StorageEffect (File R) (File R)) staged) patch :=
    ⟨parts.data, parts.sidecar⟩
  have promoted := overlays_promote ⟨_, rfl⟩ still first second
  have kinds := writer.maintainer.maintainOnUpdate_kind maintained
  have indexed := overlays_of_emits (within_writeIndexFiles kinds) index
  have noted := overlays_provided_writeIntent noting
  refine ⟨latestSeq, loaded, load, staged, staging, sidecar, computed, works, fun numbered => ?_,
    rfl, rfl, rfl, rfl⟩
  constructor
  · exact plans
  · have overlays := (((((overlays_writeIntent staged).trans promoted).trans
      (overlays_writeDeletions wrote)).trans (overlays_write _ _ _)).trans indexed).trans noted
    refine ⟨_, overlays, fun file => ?_⟩
    simp only [writes_iff, List.mem_append, List.mem_cons, List.not_mem_nil, or_false, false_or,
      List.mem_reverse, List.mem_map, Option.mem_some, exists_eq_left, exists_eq_left', patch,
      updatePatch]
    constructor
    · rintro (rfl | deleted | rfl | rfl)
      · exact .inr (.inl rfl)
      · exact .inl deleted
      · exact .inr (.inr (.inr rfl))
      · exact .inr (.inr (.inl rfl))
    · rintro (deleted | rfl | rfl | rfl)
      · exact .inr (.inl deleted)
      · exact .inl rfl
      · exact .inr (.inr (.inr rfl))
      · exact .inr (.inr (.inl rfl))
  · intro path segments given
    obtain ⟨rfl, -⟩ := Prod.mk.inj (Option.some.inj given)
    exact ⟨latestSeq + 1, Nat.lt_succ_of_le numbered, rfl⟩
  · intro fragment member
    obtain rfl := List.mem_singleton.mp member
    exact ⟨_, rfl⟩
  · exact List.nodup_singleton _
  · intro fragment member
    obtain rfl := List.mem_singleton.mp member
    exact free

/-- A located row as the writer takes it. -/
def located (row : Address × R) : MatchLoc × R :=
  (matchLoc row.1, row.2)

/-- The writer sorts located rows by row id. -/
theorem sortByRowId_located (rows : List (Address × R)) :
    sortByRowId ((rows.map Prod.fst).map matchLoc) (rows.map Prod.snd) =
      (sortLocated rows).map located := by
  have zipped : ((rows.map Prod.fst).map matchLoc).zip (rows.map Prod.snd) = rows.map located := by
    rw [List.map_map, ← List.zip_map', Function.comp_def]
    rfl
  rw [sortByRowId, zipped, sortLocated]
  exact (List.map_insertionSort _ _ located rows fun _ _ _ _ => Iff.rfl).symm

theorem map_fst_located (rows : List (Address × R)) :
    (rows.map located).map Prod.fst = (rows.map Prod.fst).map matchLoc := by
  simp [Function.comp_def, located]

theorem map_snd_located (rows : List (Address × R)) :
    (rows.map located).map Prod.snd = (rows.map fun row => (row.1.1, row.2)).map Prod.snd := by
  simp [Function.comp_def, located]

theorem rowIds_located (rows : List (Address × R)) :
    ((rows.map located).map Prod.fst).map MatchLoc.rowId = rows.map fun row => row.1.1 := by
  simp [Function.comp_def, located, matchLoc]

variable {rows : List (Address × R)} {latestSeq : Nat}

/-- An update leaves the snapshot that the change of its rows makes. -/
theorem represents_prepareUpdate {setColumns : List String} {current : Manifest}
    {snapshot : Snapshot R} (load : loadCurrent.Ends before (latestSeq, current) loaded)
    (represents : Represents loaded current snapshot) (named : current.Named)
    (numbered : current.sequence ≤ latestSeq) (wellFormed : snapshot.WellFormed)
    (nonempty : rows ≠ [])
    (run : (writer.prepareUpdate choices
      (sortByRowId ((rows.map Prod.fst).map matchLoc) (rows.map Prod.snd)) setColumns).Ends before
        prepared after) :
    Represents after prepared.manifest ((Change.update rows).apply snapshot) := by
  rw [sortByRowId_located] at run
  obtain ⟨_, _, load', staged, staging, sidecar, computed, works, mutates, rowGroups, nextRowId,
    nextFragmentId, rowIndex⟩ := mutates_prepareUpdate run
  obtain ⟨loads, rfl⟩ := load.deterministic load'
  obtain ⟨rfl, rfl⟩ := Prod.mk.inj loads
  have mutates := mutates numbered
  have staged_represents := (represents.of_cleaned named latestSeq).of_overlays named staging
    fun _ member => nomatch member
  have distinct : (prepared.current.rowGroups.map RowGroupEntry.fragmentId).Nodup := by
    rw [represents.fragmentIds]
    exact wellFormed.fragmentIds_nodup
  have patch_nonempty : (sortLocated rows).isEmpty = false := by
    have sorted : (sortLocated rows).Perm rows := List.perm_insertionSort _ rows
    rw [List.isEmpty_eq_false_iff]
    intro empty
    rw [empty] at sorted
    exact nonempty sorted.nil_eq.symm
  have contains : Mutates.Contains
      (updatePatch choices prepared.current ((sortLocated rows).map located) sidecar)
      ((sortLocated rows).map fun row => (row.1.1, row.2)) := by
    apply contains_of_computeRowGroupMeta computed (map_snd_located _)
    rw [rowIds_located]
    simp [expand, segmentIds]
  have changed : (Change.update rows).apply snapshot =
      ((snapshot.delete (Snapshot.locatedOffsets ((sortLocated rows).map fun row => row.1.2))).extend
        [(sortLocated rows).map fun row => (row.1.1, row.2)] snapshot.nextRowId
        (some (relocate snapshot (sortLocated rows)))) := by
    simp [Change.apply, Snapshot.mutate, patch_nonempty]
  rw [changed]
  constructor
  · rw [rowGroups]
    have stored := mutates.stores staged_represents named wellFormed (.cons contains .nil) rfl
    rw [map_fst_located, requestedDeletions_offsetsByFragment, List.map_map] at stored
    exact stored
  · rw [nextFragmentId, represents.nextFragmentId]
    rfl
  · rw [nextRowId, represents.nextRowId]
    rfl
  · rw [rowIndex]
    have stored := mutates.storesIndex_pushDelta staged_represents named distinct rfl
    rw [rowIds_located, represents.nextFragmentId] at stored
    exact .some stored

/-! ## Merges -/

theorem overlays_stageMergeFragment (named : ∃ uuid, fragment.rgId = "rg_" ++ uuid)
    (run : (stageMergeFragment fragment).Ends before () after) :
    Overlays [(metaFilename fragment.rgId, .sidecar fragment.sidecar),
        (dataFilename fragment.rgId, .data fragment.rows)] before after ∧
      before.files.lookup (dataFilename fragment.rgId) = none ∧
      before.files.lookup (metaFilename fragment.rgId) = none := by
  obtain ⟨_, _, reading, run⟩ := Script.ends_bind.mp run
  obtain ⟨rfl, rfl⟩ := Script.ends_read.mp reading
  obtain ⟨_, _, ensured, run⟩ := Script.ends_bind.mp run
  obtain ⟨free, rfl⟩ := Script.ends_ensure.mp ensured
  obtain ⟨_, _, data, run⟩ := Script.ends_bind.mp run
  obtain rfl := Script.ends_emit.mp data
  obtain ⟨_, _, sidecar, run⟩ := Script.ends_bind.mp run
  obtain rfl := Script.ends_emit.mp sidecar
  obtain ⟨_, _, first, second⟩ := Script.ends_bind.mp run
  rw [Bool.not_eq_true', Bool.or_eq_false_iff] at free
  have staging := (overlays_writePart "incoming" (dataFilename fragment.rgId)
    (.data fragment.rows) before).trans (overlays_writePart "incoming" (metaFilename fragment.rgId)
      (.sidecar fragment.sidecar) _)
  have promoted := overlays_promote named (stagedParts_of_writes fragment before) first second
  exact ⟨staging.trans promoted, lookup_of_not_fileExists free.1, lookup_of_not_fileExists free.2⟩

theorem overlays_each_stageMergeFragment {fragments : List (MergeFragment R)}
    (named : ∀ fragment ∈ fragments, ∃ uuid, fragment.rgId = "rg_" ++ uuid)
    (run : (Script.each stageMergeFragment fragments).Ends before () after) :
    (∃ written, Overlays written before after ∧ ∀ file, file ∈ written ↔
      ∃ fragment ∈ fragments, file = (dataFilename fragment.rgId, .data fragment.rows) ∨
        file = (metaFilename fragment.rgId, .sidecar fragment.sidecar)) ∧
      ∀ fragment ∈ fragments, before.files.lookup (dataFilename fragment.rgId) = none ∧
        before.files.lookup (metaFilename fragment.rgId) = none := by
  induction fragments generalizing before with
  | nil =>
      obtain ⟨-, rfl⟩ := Script.ends_pure.mp run
      refine ⟨⟨[], .refl before, fun file => ?_⟩, fun _ member => nomatch member⟩
      simp
  | cons fragment fragments ih =>
      obtain ⟨middle, first, rest⟩ := Script.ends_each_cons.mp run
      have named_first := named fragment List.mem_cons_self
      obtain ⟨overlays, free⟩ := overlays_stageMergeFragment named_first first
      have named_rest : ∀ other ∈ fragments, ∃ uuid, other.rgId = "rg_" ++ uuid :=
        fun other member => named other (List.mem_cons_of_mem _ member)
      obtain ⟨⟨written, rest_overlays, mem_written⟩, rest_free⟩ := ih named_rest rest
      constructor
      · refine ⟨_, overlays.trans rest_overlays, fun file => ?_⟩
        rw [List.mem_append, mem_written, List.exists_mem_cons_iff]
        simp only [List.mem_cons, List.not_mem_nil, or_false]
        rw [or_comm, or_comm (a := file = (metaFilename fragment.rgId, _))]
      · intro other member
        rcases List.mem_cons.mp member with rfl | later
        · exact free
        · obtain ⟨uuid, rgId_eq⟩ := named_rest other later
          constructor
          · apply overlays.free _ (rest_free other later).1
            simp [rgId_eq, kindOf_dataFilename, FileKind.IsContent]
          · apply overlays.free _ (rest_free other later).2
            simp [rgId_eq, kindOf_metaFilename, FileKind.IsContent]

/-- The fragments of a merge have identifiers and fragment ids of the commit, and hold what they are
to hold. -/
structure MergeFragments (choices : Choices R) (current : Manifest) (added : List (MergeFragment R))
    (contents : List (List (Nat × R))) : Prop where
  named : ∀ fragment ∈ added, ∃ uuid, fragment.rgId = "rg_" ++ uuid
  distinct : (added.map MergeFragment.rgId).Nodup
  ids : added.map MergeFragment.fragmentId = List.range' current.nextFragmentId added.length
  contains : List.Forall₂ Mutates.Contains added contents

variable {inserts : RowBatch R}

theorem mergeFragments_of_ok {current : Manifest} {patch inserted : List (MergeFragment R)}
    (patched : writer.mergePatch choices current (rows.map located) = .ok patch)
    (inserted_ok : writer.mergeInsert choices current patch inserts = .ok inserted) :
    MergeFragments choices current (patch ++ inserted)
      ((if rows.isEmpty then [] else [rows.map fun row => (row.1.1, row.2)]) ++
        if inserts.rows.isEmpty then [] else [numberRows current.nextRowId inserts.rows]) := by
  have distinct : choices.rgId 0 0 ≠ choices.rgId 1 0 := by
    intro same
    have := (choices.rgId_injective same).1
    omega
  have patch_contains : List.Forall₂ Mutates.Contains patch
      (if rows.isEmpty then [] else [rows.map fun row => (row.1.1, row.2)]) := by
    rcases mergePatch_eq_ok patched with ⟨empty, rfl⟩ | ⟨nonempty, sidecar, computed, rfl⟩
    · rw [List.map_eq_nil_iff.mp empty]
      exact .nil
    · have not_empty : rows.isEmpty = false := by simpa using nonempty
      rw [not_empty]
      apply List.Forall₂.cons _ .nil
      apply contains_of_computeRowGroupMeta computed (map_snd_located rows)
      simp [expand, segmentIds, Function.comp_def, located, matchLoc]
  have inserted_contains : List.Forall₂ Mutates.Contains inserted
      (if inserts.rows.isEmpty then [] else [numberRows current.nextRowId inserts.rows]) := by
    rcases mergeInsert_eq_ok inserted_ok with ⟨empty, rfl⟩ | ⟨nonempty, sidecar, computed, rfl⟩
    · rw [empty]
      exact .nil
    · have not_empty : inserts.rows.isEmpty = false := by simpa using nonempty
      rw [not_empty]
      apply List.Forall₂.cons _ .nil
      apply contains_of_computeRowGroupMeta computed (numberRows_rows _ _).symm
      simp [expand, segmentIds]
  rcases mergePatch_eq_ok patched with ⟨-, rfl⟩ | ⟨-, sidecar, -, rfl⟩
  · rcases mergeInsert_eq_ok inserted_ok with ⟨-, rfl⟩ | ⟨-, sidecar', -, rfl⟩
    · exact ⟨by simp, by simp, by simp, List.rel_append patch_contains inserted_contains⟩
    · exact ⟨by simp [Choices.rgId], by simp, by simp,
        List.rel_append patch_contains inserted_contains⟩
  · rcases mergeInsert_eq_ok inserted_ok with ⟨-, rfl⟩ | ⟨-, sidecar', -, rfl⟩
    · exact ⟨by simp [Choices.rgId], by simp, by simp,
        List.rel_append patch_contains inserted_contains⟩
    · exact ⟨by simp [Choices.rgId], by simp [distinct], by simp [List.range'_succ],
        List.rel_append patch_contains inserted_contains⟩

/-- Row-index delta of a merge, if it moves rows. -/
def mergeDelta (current : Manifest) (latestSeq : Nat) (rows : List (Address × R)) :
    Option (String × List AddrSegment) :=
  if rows.isEmpty then none
  else some (rowIndexDeltaPath (latestSeq + 1),
    sortSegments (patchSegments current.nextFragmentId (rows.map fun row => row.1.1)))

theorem mutates_prepareMerge
    (run : (writer.prepareMerge choices (rows.map located) inserts).Ends before prepared after) :
    ∃ latestSeq loaded, loadCurrent.Ends before (latestSeq, prepared.current) loaded ∧
      ∃ added works, MergeFragments choices prepared.current added
        ((if rows.isEmpty then [] else [rows.map fun row => (row.1.1, row.2)]) ++
          if inserts.rows.isEmpty then []
          else [numberRows prepared.current.nextRowId inserts.rows]) ∧
      (∃ patch inserted, writer.mergePatch choices prepared.current (rows.map located) = .ok patch ∧
        writer.mergeInsert choices prepared.current patch inserts = .ok inserted ∧
        added = patch ++ inserted) ∧
      (prepared.current.sequence ≤ latestSeq →
        Mutates (cleaned latestSeq (manifestReferencedFiles prepared.current) loaded) after
          prepared.current (offsetsByFragment ((rows.map located).map Prod.fst)) works
          (mergeDelta prepared.current latestSeq rows) added) ∧
      prepared.manifest.rowGroups = prepared.current.rowGroups.map (applyWork works) ++
        added.map MergeFragment.entry ∧
      prepared.manifest.nextRowId = prepared.current.nextRowId + inserts.rows.length ∧
      prepared.manifest.nextFragmentId = prepared.current.nextFragmentId + added.length ∧
      prepared.manifest.rowindexGeneration = mergeGeneration prepared.current
        (if rows.isEmpty then none else some (rowIndexDeltaPath (latestSeq + 1))) := by
  obtain ⟨⟨latestSeq, current⟩, begun, start, run⟩ := Script.ends_bind.mp run
  obtain ⟨loaded, load, rfl, -⟩ := ends_beginMutation.mp start
  obtain ⟨patch, _, patching, run⟩ := Script.ends_bind.mp run
  obtain ⟨patched, rfl⟩ := Script.ends_lift.mp patching
  obtain ⟨inserted, _, inserting, run⟩ := Script.ends_bind.mp run
  obtain ⟨inserted_ok, rfl⟩ := Script.ends_lift.mp inserting
  obtain ⟨works, _, plan, run⟩ := Script.ends_bind.mp run
  obtain ⟨rfl, plans⟩ := plannedFor_of_ends_planDeletions plan
  obtain ⟨_, _, intent, run⟩ := Script.ends_bind.mp run
  obtain rfl := Script.ends_emit.mp intent
  obtain ⟨_, staged, stage, run⟩ := Script.ends_bind.mp run
  obtain ⟨_, _, wrote, run⟩ := Script.ends_bind.mp run
  obtain ⟨_, _, delta, run⟩ := Script.ends_bind.mp run
  obtain ⟨⟨manifest, files⟩, _, index, run⟩ := Script.ends_bind.mp run
  obtain ⟨rfl, rfl⟩ := Script.ends_pure.mp run
  obtain ⟨⟨generations, rfl⟩, support⟩ := ends_buildIndexesIntoManifest index
  have fragments := mergeFragments_of_ok patched inserted_ok
  obtain ⟨⟨written, added_overlays, mem_written⟩, free⟩ :=
    overlays_each_stageMergeFragment fragments.named stage
  have indexed := overlays_of_emits (within_buildIndexesIntoManifest _ _ _ _ _ _) index
  have is_empty : (rows.map (located (R := R))).isEmpty = rows.isEmpty := List.isEmpty_map
  rw [rowIds_located, is_empty] at delta
  refine ⟨latestSeq, loaded, load, patch ++ inserted, works, fragments,
    ⟨patch, inserted, patched, inserted_ok, rfl⟩, fun numbered => ?_, rfl, rfl, rfl,
    by rw [is_empty]⟩
  constructor
  · exact plans
  · have overlays := (((overlays_writeIntent _).trans added_overlays).trans
      (overlays_writeDeletions wrote)).trans ((overlays_each_writeIndex delta).trans indexed)
    refine ⟨_, overlays, fun file => ?_⟩
    rw [writes_iff, mergeDelta]
    simp only [List.nil_append, List.append_nil, List.mem_append, List.mem_reverse, List.mem_map,
      mem_written]
    cases rows.isEmpty with
    | true => simp
    | false =>
        simp only [Bool.false_eq_true, if_false, Option.toList_some, List.mem_singleton,
          exists_eq_left, Option.mem_some, exists_eq_left']
        exact or_left_comm
  · intro path segments given
    unfold mergeDelta at given
    split at given
    · cases given
    · obtain ⟨rfl, -⟩ := Prod.mk.inj (Option.some.inj given)
      exact ⟨latestSeq + 1, Nat.lt_succ_of_le numbered, rfl⟩
  · exact fragments.named
  · exact fragments.distinct
  · exact free

theorem mergeGeneration_none (current : Manifest) :
    mergeGeneration current none = current.rowindexGeneration := by
  unfold mergeGeneration
  cases current.rowindexGeneration with
  | none => rfl
  | some generation => exact ite_self _

theorem mergeGeneration_some (current : Manifest) (path : String) :
    mergeGeneration current (some path) = some (pushDelta current.rowindexGeneration path) := by
  simp [mergeGeneration, pushDelta]

/-- A merge leaves the snapshot that the change of its rows makes. -/
theorem represents_prepareMerge {matched : List (Address × R)} {current : Manifest}
    {snapshot : Snapshot R} (load : loadCurrent.Ends before (latestSeq, current) loaded)
    (represents : Represents loaded current snapshot) (named : current.Named)
    (numbered : current.sequence ≤ latestSeq) (wellFormed : snapshot.WellFormed)
    (run : (writer.prepareMerge choices
      (sortByRowId ((matched.map Prod.fst).map matchLoc) (matched.map Prod.snd)) inserts).Ends before
        prepared after) :
    Represents after prepared.manifest ((Change.merge matched inserts.rows).apply snapshot) := by
  rw [sortByRowId_located] at run
  obtain ⟨_, _, load', added, works, fragments, -, mutates, rowGroups, nextRowId, nextFragmentId,
    rowIndex⟩ := mutates_prepareMerge run
  obtain ⟨loads, rfl⟩ := load.deterministic load'
  obtain ⟨rfl, rfl⟩ := Prod.mk.inj loads
  have mutates := mutates numbered
  have represents := represents.of_cleaned named latestSeq
  have distinct : (prepared.current.rowGroups.map RowGroupEntry.fragmentId).Nodup := by
    rw [represents.fragmentIds]
    exact wellFormed.fragmentIds_nodup
  rw [represents.nextRowId] at fragments
  have count := fragments.contains.length_eq
  constructor
  · rw [rowGroups]
    have stored := mutates.stores represents named wellFormed fragments.contains fragments.ids
    rw [map_fst_located, requestedDeletions_offsetsByFragment, List.map_map] at stored
    exact stored
  · rw [nextFragmentId, represents.nextFragmentId, count]
    rfl
  · rw [nextRowId, represents.nextRowId]
    rfl
  · rw [rowIndex]
    have index_eq : ((Change.merge matched inserts.rows).apply snapshot).rowIndex =
        if (sortLocated matched).isEmpty then snapshot.rowIndex
        else some (relocate snapshot (sortLocated matched)) := rfl
    rw [index_eq]
    cases empty : (sortLocated matched).isEmpty with
    | true =>
        rw [if_pos rfl, if_pos rfl, mergeGeneration_none]
        exact (mutates.represents_current represents named distinct).rowIndex
    | false =>
        rw [if_neg (by decide), if_neg (by decide), mergeGeneration_some]
        have given : mergeDelta prepared.current latestSeq (sortLocated matched) = some _ :=
          if_neg (by rw [empty]; decide)
        have stored := mutates.storesIndex_pushDelta represents named distinct given
        rw [represents.nextFragmentId] at stored
        exact .some stored

/-! ## Deletes -/

theorem DelWork.PlannedFor.of_deletionsOf {storage other : TableStorage R} {work : DelWork}
    (planned : work.PlannedFor storage byFragment entry)
    (same : deletionsOf storage entry = deletionsOf other entry) :
    work.PlannedFor other byFragment entry := by
  obtain ⟨offsets, old, requested, loaded, deletions_eq⟩ := planned.deletions
  exact ⟨planned.fragmentId, ⟨offsets, old, requested, same ▸ loaded, deletions_eq⟩, planned.path⟩

theorem Plans.of_deletionsOf {entries : List RowGroupEntry}
    (plans : Plans before byFragment entries works)
    (same : ∀ entry ∈ entries, deletionsOf before entry = deletionsOf after entry) :
    Plans after byFragment entries works := by
  obtain ⟨length_eq, planned⟩ := List.forall₂_iff_get.mp plans
  refine List.forall₂_iff_get.mpr ⟨length_eq, fun index left right => ?_⟩
  have member := List.get_mem _ ⟨index, left⟩
  exact (planned index left right).of_deletionsOf (same _ (List.mem_filter.mp member).1)

/-- A next deletion vector leaves those of other fragments alone. -/
theorem deletionsOf_write {work : DelWork} {version : Nat} (named : entry.Named)
    (path_eq : work.path = deletionPath work.fragmentId version)
    (different : entry.fragmentId ≠ work.fragmentId) (storage : TableStorage R) :
    deletionsOf (Effect.perform (.write work.path (.deletions work.deletions) :
      StorageEffect (File R) (File R)) storage) entry = deletionsOf storage entry := by
  unfold deletionsOf
  cases found : entry.deletes with
  | none => rfl
  | some path =>
      obtain ⟨old, rfl⟩ := named.deletes path found
      have apart : deletionPath entry.fragmentId old ≠ work.path := by
        rw [path_eq]
        exact fun same => different (deletionPath_fragment_injective same)
      simp only [Effect.perform, Storage.perform, AList.lookup_insert_ne apart]

theorem applyWork_cons_of_ne {work : DelWork} (different : entry.fragmentId ≠ work.fragmentId) :
    applyWork (work :: works) entry = applyWork works entry := by
  rw [applyWork, applyWork, List.find?_cons_of_neg (by simpa using Ne.symm different)]

/-- Deleting rows plans and writes the next deletion vectors one by one. -/
theorem plans_of_ends_deleteRows {entries rowGroups : List RowGroupEntry}
    (distinct : (entries.map RowGroupEntry.fragmentId).Nodup)
    (named : ∀ entry ∈ entries, entry.Named)
    (run : (deleteRows byFragment entries).Ends before (rowGroups, works) after) :
    Plans before byFragment entries works ∧ rowGroups = entries.map (applyWork works) ∧
      Overlays (works.map fun work : DelWork => (work.path, File.deletions work.deletions)).reverse
        before after := by
  induction entries generalizing before rowGroups works with
  | nil =>
      obtain ⟨ended, rfl⟩ := Script.ends_pure.mp run
      obtain ⟨rfl, rfl⟩ := Prod.mk.inj ended
      exact ⟨.nil, rfl, .refl before⟩
  | cons entry entries ih =>
      obtain ⟨fresh, distinct⟩ := List.nodup_cons.mp distinct
      have named_rest : ∀ other ∈ entries, other.Named :=
        fun other member => named other (List.mem_cons_of_mem entry member)
      have different : ∀ other ∈ entries, other.fragmentId ≠ entry.fragmentId :=
        fun other member same => fresh (same ▸ List.mem_map_of_mem member)
      rw [deleteRows] at run
      split at run
      · next unrequested =>
          obtain ⟨⟨rest, later⟩, _, first, run⟩ := Script.ends_bind.mp run
          obtain ⟨ended, rfl⟩ := Script.ends_pure.mp run
          obtain ⟨rfl, rfl⟩ := Prod.mk.inj ended
          obtain ⟨plans, rfl, overlays⟩ := ih distinct named_rest first
          refine ⟨?_, ?_, overlays⟩
          · rw [Plans, List.filter_cons_of_neg (by simp [unrequested])]
            exact plans
          · have unplanned : later.find? (fun work => work.fragmentId = entry.fragmentId) = none := by
              rw [List.find?_eq_none]
              intro work member
              obtain ⟨origin, origin_member, planned⟩ := plans.origin work member
              rw [planned.fragmentId]
              simpa using different origin origin_member
            rw [List.map_cons, applyWork, unplanned]
      · next offsets requested =>
          obtain ⟨work, _, plan, run⟩ := Script.ends_bind.mp run
          obtain ⟨planned, rfl⟩ := plannedFor_of_ends requested plan
          obtain ⟨_, _, write, run⟩ := Script.ends_bind.mp run
          obtain rfl := Script.ends_emit.mp write
          obtain ⟨⟨rest, later⟩, _, others, run⟩ := Script.ends_bind.mp run
          obtain ⟨ended, rfl⟩ := Script.ends_pure.mp run
          obtain ⟨rfl, rfl⟩ := Prod.mk.inj ended
          obtain ⟨plans, rfl, overlays⟩ := ih distinct named_rest others
          have apart : ∀ other ∈ entries, other.fragmentId ≠ work.fragmentId :=
            fun other member => planned.fragmentId ▸ different other member
          obtain ⟨version, path_eq, -⟩ := planned.path
          rw [← planned.fragmentId] at path_eq
          refine ⟨?_, ?_, ?_⟩
          · rw [Plans, List.filter_cons_of_pos (by simp [requested])]
            apply List.Forall₂.cons planned
            exact plans.of_deletionsOf fun other member =>
              deletionsOf_write (named_rest other member) path_eq (apart other member) before
          · rw [List.map_cons, applyWork, List.find?_cons_of_pos (by simp [planned.fragmentId])]
            congr 1
            apply List.map_congr_left
            intro other member
            exact (applyWork_cons_of_ne (apart other member)).symm
          · rw [List.map_cons, List.reverse_cons]
            exact (overlays_write _ _ before).trans overlays

theorem mutates_prepareDelete {prepared : PreparedDelete} {current : Manifest}
    (load : loadCurrent.Ends before (latestSeq, current) loaded) (named : current.Named)
    (distinct : (current.rowGroups.map RowGroupEntry.fragmentId).Nodup)
    (run : (writer.prepareDelete byFragment).Ends before prepared after) :
    ∃ works, Mutates (cleaned latestSeq (manifestReferencedFiles current) loaded) after current
        byFragment works none [] ∧
      prepared.manifest.rowGroups = current.rowGroups.map (applyWork works) ∧
      prepared.manifest.nextRowId = current.nextRowId ∧
      prepared.manifest.nextFragmentId = current.nextFragmentId ∧
      prepared.manifest.rowindexGeneration = current.rowindexGeneration := by
  simp only [prepareDelete, Script.ends_bind, Prod.exists, ends_beginMutation, Script.ends_ensure,
    Script.ends_pure] at run
  obtain ⟨_, _, _, ⟨loaded', load', rfl, -⟩, rowGroups, works, _, deleted, _, _, _, reading, _, _,
    ⟨-, rfl⟩, _, _, _, tombstones, rfl, rfl⟩ := run
  obtain ⟨loads, rfl⟩ := load.deterministic load'
  obtain ⟨rfl, rfl⟩ := Prod.mk.inj loads
  obtain ⟨plans, rfl, overlays⟩ := plans_of_ends_deleteRows distinct named.rowGroups deleted
  obtain rfl := Script.Emits.silent (emits_deletedRowIds _ _) reading
  have indexed := overlays_of_emits (within_appendTombstones _ _ _ _ _) tombstones
  refine ⟨works, ?_, rfl, rfl, rfl, rfl⟩
  constructor
  · exact plans
  · refine ⟨_, overlays.trans indexed, fun file => ?_⟩
    simp [writes_iff]
  · rintro _ _ ⟨⟩
  · rintro _ ⟨⟩
  · exact List.nodup_nil
  · rintro _ ⟨⟩

/-- A delete leaves the snapshot without the rows that were located. -/
theorem represents_prepareDelete {locs : List Address} {prepared : PreparedDelete}
    {current : Manifest} {snapshot : Snapshot R}
    (load : loadCurrent.Ends before (latestSeq, current) loaded)
    (represents : Represents loaded current snapshot) (named : current.Named)
    (wellFormed : snapshot.WellFormed)
    (run : (writer.prepareDelete (offsetsByFragment (locs.map matchLoc))).Ends before prepared
      after) : Represents after prepared.manifest ((Change.deletes locs).apply snapshot) := by
  have distinct : (current.rowGroups.map RowGroupEntry.fragmentId).Nodup := by
    rw [represents.fragmentIds]
    exact wellFormed.fragmentIds_nodup
  obtain ⟨works, mutates, rowGroups, nextRowId, nextFragmentId, rowIndex⟩ :=
    mutates_prepareDelete load named distinct run
  have represents := represents.of_cleaned named latestSeq
  constructor
  · rw [rowGroups]
    have stored := mutates.stores represents named wellFormed .nil rfl
    rw [requestedDeletions_offsetsByFragment, List.map_nil, List.append_nil, newFragments,
      List.append_nil] at stored
    exact stored
  · rw [nextFragmentId, represents.nextFragmentId]
    rfl
  · rw [nextRowId, represents.nextRowId]
    rfl
  · rw [rowIndex]
    exact (mutates.represents_current represents named distinct).rowIndex

end Writer

end IcefallDB
