import IcefallDB.Doctor.History
import IcefallDB.Gc
import IcefallDB.Lib.Trace

/-!
# The chain of manifest files

Every publisher links its manifest to the manifest file before it.  Sequence numbers are also
consumed by records of the mutation log and manifest files are pruned from below, so the file before
a new one need not have the number before it.
-/

namespace IcefallDB

variable {β φ : Type}

/-! ## The manifest before a sequence -/

namespace Storage

/-- The closest manifest file before a sequence. -/
def Predecessor (storage : Storage β φ) (sequence before : Nat) : Prop :=
  before ∈ storage.manifests ∧ before < sequence ∧
    ∀ other ∈ storage.manifests, other < sequence → other ≤ before

variable {storage : Storage β φ}

theorem Predecessor.unique {sequence before before' : Nat}
    (left : storage.Predecessor sequence before) (right : storage.Predecessor sequence before') :
    before = before' :=
  Nat.le_antisymm (right.2.2 before left.1 left.2.1) (left.2.2 before' right.1 right.2.1)

/-- The parent hash of a manifest is the checksum of the closest manifest file before a sequence;
it has none exactly when there is no such file. -/
def LinksBack (storage : Storage β φ) (sequence : Nat) (manifest : Manifest) : Prop :=
  ∀ hash, manifest.parentHash = some hash ↔
    ∃ before predecessor, storage.Predecessor sequence before ∧
      storage.manifests.lookup before = some predecessor ∧ predecessor.checksum = hash

theorem mem_of_lookup {sequence : Nat} {manifest : Manifest}
    (found : storage.manifests.lookup sequence = some manifest) : sequence ∈ storage.manifests :=
  AList.lookup_isSome.mp (by simp [found])

theorem exists_lookup {sequence : Nat} (member : sequence ∈ storage.manifests) :
    ∃ manifest, storage.manifests.lookup sequence = some manifest :=
  Option.isSome_iff_exists.mp (AList.lookup_isSome.mpr member)

end Storage

namespace MutationWal

variable {storage : Storage β φ}

theorem exists_of_pointerManifest {base : Manifest} (found : pointerManifest storage = some base) :
    ∃ sequence, storage.pointer = .latest sequence ∧
      storage.manifests.lookup sequence = some base := by
  unfold pointerManifest at found
  split at found
  · next sequence pointer_eq => exact ⟨sequence, pointer_eq, found⟩
  · cases found

end MutationWal

/-! ## Effects that extend the chain -/

/-- The effect neither writes nor deletes a manifest file, nor moves the pointer. -/
def StorageEffect.Quiet : StorageEffect β φ → Prop
  | writeManifest _ _ => False
  | deleteManifest _ => False
  | writePointer _ => False
  | _ => True

variable {effect : StorageEffect β φ}

theorem StorageEffect.Within.quiet {allowed : String → Prop} (inside : effect.Within allowed) :
    effect.Quiet := by
  cases effect with
  | writeManifest | deleteManifest | writePointer => exact absurd inside id
  | _ => trivial

namespace Storage

/-- A manifest is published above all manifest files and linked to the closest of them; no manifest
file is deleted but one below another. -/
def Extends (storage : Storage β φ) : StorageEffect β φ → Prop
  | .writeManifest sequence manifest =>
      manifest.sequence = sequence ∧ storage.LinksBack sequence manifest ∧
        ∀ other ∈ storage.manifests, other < sequence
  | .deleteManifest sequence => ∃ other ∈ storage.manifests, sequence < other
  | _ => True

theorem extends_of_quiet (quiet : effect.Quiet) (storage : Storage β φ) :
    storage.Extends effect := by
  cases effect with
  | writeManifest | deleteManifest => exact absurd quiet id
  | _ => trivial

theorem manifests_perform_quiet (quiet : effect.Quiet) (storage : Storage β φ) :
    (Effect.perform effect storage).manifests = storage.manifests ∧
      (Effect.perform effect storage).pointer = storage.pointer := by
  cases effect with
  | writeManifest | deleteManifest | writePointer => exact absurd quiet id
  | rename source target =>
      simp only [Effect.perform, Storage.perform]
      split <;> exact ⟨rfl, rfl⟩
  | _ => exact ⟨rfl, rfl⟩

variable {storage : Storage β φ}

/-- Every manifest file is valid, stamped with a commit time and linked to the file before it. -/
structure Chained (storage : Storage β φ) : Prop where
  sound : ∀ sequence manifest, storage.manifests.lookup sequence = some manifest →
    0 < sequence ∧ GarbageCollector.isValid sequence manifest = true ∧ manifest.committedAt ≠ none
  linked : ∀ sequence manifest before predecessor,
    storage.manifests.lookup sequence = some manifest → storage.Predecessor sequence before →
      storage.manifests.lookup before = some predecessor →
        manifest.parentHash = some predecessor.checksum

/-- If there are manifest files, the pointer designates the newest of them. -/
def PointsToNewest (storage : Storage β φ) : Prop :=
  ∀ other ∈ storage.manifests, ∃ newest ∈ storage.manifests,
    storage.pointer = .latest newest ∧ other ≤ newest

/-- No manifest file is above a sequence. -/
def UpTo (storage : Storage β φ) (latestSeq : Nat) : Prop :=
  ∀ sequence ∈ storage.manifests, sequence ≤ latestSeq

variable {before after : Storage β φ}

theorem Chained.of_manifests_eq (chained : before.Chained)
    (same : after.manifests = before.manifests) : after.Chained := by
  refine ⟨?_, ?_⟩
  · rw [same]
    exact chained.sound
  · intro sequence manifest previous predecessor
    simp only [Predecessor, same]
    exact chained.linked sequence manifest previous predecessor

theorem PointsToNewest.of_eq (newest : before.PointsToNewest)
    (manifests_eq : after.manifests = before.manifests)
    (pointer_eq : after.pointer = before.pointer) : after.PointsToNewest := by
  simp only [PointsToNewest, manifests_eq, pointer_eq]
  exact newest

/-- Publishing a linked manifest above all others continues the chain. -/
theorem Chained.publish (chained : storage.Chained) {sequence : Nat} {manifest : Manifest}
    (positive : 0 < sequence) (valid : GarbageCollector.isValid sequence manifest = true)
    (stamped : manifest.committedAt ≠ none) (links : storage.LinksBack sequence manifest)
    (above : ∀ other ∈ storage.manifests, other < sequence) :
    Chained { storage with manifests := storage.manifests.insert sequence manifest } := by
  have lookup_old : ∀ other, other ≠ sequence →
      (storage.manifests.insert sequence manifest).lookup other = storage.manifests.lookup other :=
    fun other different => AList.lookup_insert_ne different
  -- nothing changes below the new file, so its predecessor and all older ones stay the same
  have predecessor_old : ∀ {bound before}, bound ≤ sequence →
      Predecessor { storage with manifests := storage.manifests.insert sequence manifest } bound
        before → storage.Predecessor bound before := by
    rintro bound before bounded ⟨there, below, closest⟩
    refine ⟨((AList.mem_insert _).mp there).resolve_left (by omega), below, ?_⟩
    exact fun other other_there under =>
      closest other ((AList.mem_insert _).mpr (.inr other_there)) under
  refine ⟨?_, ?_⟩
  · intro other found_manifest found
    by_cases same : other = sequence
    · subst same
      rw [AList.lookup_insert] at found
      obtain rfl := Option.some.inj found
      exact ⟨positive, valid, stamped⟩
    · rw [lookup_old other same] at found
      exact chained.sound other found_manifest found
  · intro other found_manifest before predecessor found is_before found_before
    have bounded : other ≤ sequence := by
      rcases (AList.mem_insert _).mp (mem_of_lookup found) with rfl | there
      · exact Nat.le_refl _
      · exact Nat.le_of_lt (above other there)
    have was_before := predecessor_old bounded is_before
    have below := was_before.2.1
    rw [lookup_old before (by omega)] at found_before
    by_cases same : other = sequence
    · subst same
      rw [AList.lookup_insert] at found
      obtain rfl := Option.some.inj found
      exact (links predecessor.checksum).mpr ⟨before, predecessor, was_before, found_before, rfl⟩
    · rw [lookup_old other same] at found
      exact chained.linked other found_manifest before predecessor found was_before found_before

/-- Pruning manifest files from below keeps the chain. -/
theorem Chained.prune {pruned : Storage β φ} (chained : storage.Chained) {cutoff : Nat}
    (kept : ∀ sequence, pruned.manifests.lookup sequence =
      if sequence < cutoff then none else storage.manifests.lookup sequence) : pruned.Chained := by
  have inside : ∀ sequence manifest, pruned.manifests.lookup sequence = some manifest →
      cutoff ≤ sequence ∧ storage.manifests.lookup sequence = some manifest := by
    intro sequence manifest found
    rw [kept] at found
    split at found
    · cases found
    · exact ⟨by omega, found⟩
  refine ⟨fun sequence manifest found => chained.sound _ _ (inside _ _ found).2, ?_⟩
  intro sequence manifest before predecessor found is_before found_before
  obtain ⟨-, found⟩ := inside sequence manifest found
  obtain ⟨left, found_before⟩ := inside before predecessor found_before
  refine chained.linked sequence manifest before predecessor found ?_ found_before
  refine ⟨mem_of_lookup found_before, is_before.2.1, fun other there below => ?_⟩
  by_cases dropped : other < cutoff
  · omega
  · obtain ⟨other_manifest, other_found⟩ := exists_lookup there
    have still : pruned.manifests.lookup other = some other_manifest := by
      rw [kept, if_neg dropped]
      exact other_found
    exact is_before.2.2 other (mem_of_lookup still) below

/-- A chain whose newest file the pointer designates. -/
structure Consistent (storage : Storage β φ) : Prop where
  chained : storage.Chained
  newest : storage.PointsToNewest

theorem Consistent.of_eq (consistent : before.Consistent)
    (manifests_eq : after.manifests = before.manifests)
    (pointer_eq : after.pointer = before.pointer) : after.Consistent :=
  ⟨consistent.chained.of_manifests_eq manifests_eq, consistent.newest.of_eq manifests_eq pointer_eq⟩

theorem Chained.positive (chained : storage.Chained) :
    ∀ sequence ∈ storage.manifests, 0 < sequence := by
  intro sequence there
  obtain ⟨manifest, found⟩ := exists_lookup there
  exact (chained.sound sequence manifest found).1

theorem Consistent.latest (consistent : storage.Consistent) {sequence : Nat}
    (pointer_eq : storage.pointer = .latest sequence) : storage.UpTo sequence := by
  intro other there
  obtain ⟨newest, -, points, le⟩ := consistent.newest other there
  rw [pointer_eq] at points
  rwa [Pointer.latest.inj points]

end Storage

/-! ## Verifying the chain -/

/-- The manifest files as the verification of a history reads them. -/
def Storage.manifestFiles (storage : Storage β φ) : ManifestFiles where
  entries := storage.manifests.entries.map (Sigma.map id fun _ manifest => some manifest)
  nodupKeys := by
    have nodup := storage.manifests.nodupKeys
    simpa [List.NodupKeys, List.keys, Function.comp_def, Sigma.map] using nodup

theorem Storage.lookup_manifestFiles (storage : Storage β φ) (sequence : Nat) :
    storage.manifestFiles.lookup sequence = (storage.manifests.lookup sequence).map some :=
  List.dlookup_map₂ (f := fun _ manifest => some manifest) sequence

theorem Storage.keys_manifestFiles (storage : Storage β φ) :
    storage.manifestFiles.keys = storage.manifests.keys := by
  simp [manifestFiles, AList.keys, List.keys, Sigma.map]

/-- The verification of a history accepts a chain. -/
theorem Storage.Chained.intact {storage : Storage β φ} (chained : storage.Chained) :
    (Doctor.verifyHistory storage.manifestFiles).intact = true := by
  let contents : Nat → Manifest := fun sequence => (storage.manifests.lookup sequence).getD {}
  have found : ∀ sequence ∈ ascending storage.manifests.keys,
      storage.manifests.lookup sequence = some (contents sequence) := by
    intro sequence member
    obtain ⟨manifest, found⟩ := exists_lookup (AList.mem_keys.mpr (mem_ascending.mp member))
    simp [contents, found]
  have files_eq : Doctor.sortedFiles storage.manifestFiles =
      (ascending storage.manifests.keys).map fun sequence => (sequence, some (contents sequence)) := by
    rw [Doctor.sortedFiles, keys_manifestFiles]
    refine List.map_congr_left fun sequence member => ?_
    rw [lookup_manifestFiles, found sequence member]
    rfl
  have verified : ∀ sequence ∈ ascending storage.manifests.keys,
      (contents sequence).verifyChecksum = true := by
    intro sequence member
    have valid := (chained.sound sequence _ (found sequence member)).2.1
    simp only [GarbageCollector.isValid, Bool.and_eq_true] at valid
    exact valid.2
  rw [Doctor.verifyHistory_intact_iff, files_eq, Doctor.verifyFiles_eq_nil_iff verified,
    Option.toList_none, List.nil_append, List.isChain_map]
  have closest := isChain_closest (sortedLT_ascending storage.manifests.keys_nodup)
  refine closest.imp_of_mem_imp fun lower upper lower_in upper_in is_closest => .inl ?_
  obtain ⟨-, below, no_closer⟩ := is_closest
  refine chained.linked upper _ lower _ (found upper upper_in) ?_ (found lower lower_in)
  refine ⟨AList.mem_keys.mpr (mem_ascending.mp lower_in), below, fun other there => ?_⟩
  exact no_closer other (mem_ascending.mpr (AList.mem_keys.mp there))

end IcefallDB
