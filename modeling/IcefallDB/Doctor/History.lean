import IcefallDB.Lib.HashChain
import IcefallDB.Metadata.Checksum

/-!
# Verifying the history of a table

Each manifest stores its own checksum and the checksum of its predecessor.  `verifyHistory` walks
the manifest files that are left, oldest first, and reports every file whose checksum or link is
wrong.  A manifest in the form that predates checksums is an anchor: nothing is known about it, and
the link of its successor is not checked.
-/

namespace IcefallDB

/-- The manifest files of a table, by the sequence in their name; `none` is a file that does not
parse as a manifest. -/
abbrev ManifestFiles : Type :=
  HashMap Nat (Option Manifest)

/-- The form of manifests that predate checksums and the hash chain. -/
def Manifest.IsLegacy (manifest : Manifest) : Prop :=
  manifest.checksum = "" ∧ manifest.committedAt = none

instance (manifest : Manifest) : Decidable manifest.IsLegacy :=
  inferInstanceAs (Decidable (_ ∧ _))

namespace Doctor

/-- A break in the chain of manifests. -/
structure ChainBreak where
  /-- Sequence of the manifest file where the break was detected. -/
  sequence : Nat
  reason : String
  deriving DecidableEq

/-- Result of verifying the chain of the manifest files. -/
structure HistoryReport where
  intact : Bool
  /-- Sequence of the oldest file, zero without files. -/
  oldest : Nat
  /-- Sequence of the newest file, zero without files. -/
  latest : Nat
  breaks : List ChainBreak

/-- What is wrong with the link of a manifest to its verified predecessor, if there is one. -/
def linkFault (prev : Option Manifest) (manifest : Manifest) : Option String :=
  match prev with
  | none => none
  | some predecessor =>
      match manifest.parentHash with
      | some parent =>
          if parent = predecessor.checksum then none
          else some "parent_hash mismatch: does not match predecessor checksum"
      | none =>
          if manifest.committedAt = none then none
          else some "missing parent_hash: retained predecessor is present"

/-- Verify one file.  Returns the breaks found and the predecessor of the next file. -/
def verifyFile (prev : Option Manifest) (sequence : Nat) :
    Option Manifest → List ChainBreak × Option Manifest
  | none => ([{ sequence, reason := "invalid JSON" }], none)
  | some manifest =>
      if manifest.verifyChecksum then
        ((linkFault prev manifest).toList.map fun reason => { sequence, reason }, some manifest)
      else if manifest.IsLegacy then ([], none)
      else ([{ sequence, reason := "self-checksum mismatch" }], none)

/-- Verify files in ascending order of their sequences. -/
def verifyFiles : Option Manifest → List (Nat × Option Manifest) → List ChainBreak
  | _, [] => []
  | prev, (sequence, file) :: rest =>
      (verifyFile prev sequence file).1 ++ verifyFiles (verifyFile prev sequence file).2 rest

/-- The manifest files in ascending order of their sequences. -/
def sortedFiles (files : ManifestFiles) : List (Nat × Option Manifest) :=
  (ascending files.keys).map fun sequence => (sequence, (files.lookup sequence).join)

/-- Verify the chain of the manifest files that are left. -/
def verifyHistory (files : ManifestFiles) : HistoryReport :=
  let breaks := verifyFiles none (sortedFiles files)
  { intact := breaks.isEmpty
    oldest := (ascending files.keys).head?.getD 0
    latest := (ascending files.keys).getLast?.getD 0
    breaks }

/-! ## Intact chains -/

/-- The link of a manifest to its predecessor passes. -/
def Follows (older newer : Manifest) : Prop :=
  newer.parentHash = some older.checksum ∨ newer.parentHash = none ∧ newer.committedAt = none

variable {prev : Option Manifest} {manifest : Manifest}

theorem linkFault_eq_none :
    linkFault prev manifest = none ↔ ∀ predecessor ∈ prev, Follows predecessor manifest := by
  cases prev with
  | none => simp [linkFault]
  | some predecessor =>
      cases parent_eq : manifest.parentHash <;> simp [linkFault, Follows, parent_eq]

theorem verifyFiles_cons_verified {sequence : Nat} {rest : List (Nat × Option Manifest)}
    (verified : manifest.verifyChecksum = true) :
    verifyFiles prev ((sequence, some manifest) :: rest) = [] ↔
      (∀ predecessor ∈ prev, Follows predecessor manifest) ∧
        verifyFiles (some manifest) rest = [] := by
  simp only [verifyFiles, verifyFile, verified, if_true, List.append_eq_nil_iff, List.map_eq_nil_iff,
    Option.toList_eq_nil_iff, linkFault_eq_none]

/-- Verified manifests without breaks are linked, one to the next. -/
theorem verifyFiles_eq_nil_iff {sequences : List Nat} {contents : Nat → Manifest}
    (verified : ∀ sequence ∈ sequences, (contents sequence).verifyChecksum = true) :
    verifyFiles prev (sequences.map fun sequence => (sequence, some (contents sequence))) = [] ↔
      (prev.toList ++ sequences.map contents).IsChain Follows := by
  induction sequences generalizing prev with
  | nil => cases prev <;> simp [verifyFiles]
  | cons sequence sequences ih =>
      rw [List.map_cons, verifyFiles_cons_verified (verified sequence List.mem_cons_self),
        ih fun other member => verified other (List.mem_cons_of_mem _ member)]
      cases prev with
      | none => simp
      | some predecessor => simp

/-- A file that causes no break is a manifest, verified or in the legacy form. -/
theorem verified_or_legacy_of_verifyFiles {files : List (Nat × Option Manifest)}
    (intact : verifyFiles prev files = []) :
    ∀ file ∈ files, ∃ manifest, file.2 = some manifest ∧
      (manifest.verifyChecksum = true ∨ manifest.IsLegacy) := by
  induction files generalizing prev with
  | nil => simp
  | cons first rest ih =>
      obtain ⟨sequence, file⟩ := first
      obtain ⟨first_intact, rest_intact⟩ := List.append_eq_nil_iff.mp intact
      intro other member
      rcases List.mem_cons.mp member with rfl | member
      · cases file with
        | none => simp [verifyFile] at first_intact
        | some manifest =>
            refine ⟨manifest, rfl, ?_⟩
            by_contra neither
            obtain ⟨not_verified, not_legacy⟩ := not_or.mp neither
            simp [verifyFile, not_verified, not_legacy] at first_intact
      · exact ih rest_intact other member

variable {files : ManifestFiles}

theorem verifyHistory_intact_iff :
    (verifyHistory files).intact = true ↔ verifyFiles none (sortedFiles files) = [] :=
  List.isEmpty_iff

/-! ## Tampering -/

/-- The manifest files are as commits write them: sealed under their sequence, with a commit time. -/
def Produced (files : ManifestFiles) : Prop :=
  ∀ sequence file, files.lookup sequence = some file →
    ∃ (draft : Manifest) (parent : Option String) (now : String),
      file = some (draft.finalize parent now) ∧ draft.sequence = sequence

/-- An edit of the manifest files that keeps the newest one, adds none and removes neither the
oldest nor the newest.  Contents count as changed when they differ in more than the iteration order
of a map. -/
structure Tampers (before after : ManifestFiles) : Prop where
  retained : ∀ sequence ∈ after, sequence ∈ before
  oldest : ∀ sequence ∈ before, (∀ other ∈ before, sequence ≤ other) → sequence ∈ after
  newest : ∀ sequence ∈ before, (∀ other ∈ before, other ≤ sequence) →
    after.lookup sequence = before.lookup sequence
  changed : ∃ sequence,
    ¬Option.Rel (Option.Rel Manifest.Same) (before.lookup sequence) (after.lookup sequence)

/-- The checksum tells every manifest before an edit from every different one after it. -/
def CollisionFree (before after : ManifestFiles) : Prop :=
  ∀ sequence manifest sequence' manifest',
    before.lookup sequence = some (some manifest) → after.lookup sequence' = some (some manifest') →
      manifest.computeChecksum = manifest'.computeChecksum →
        ({ manifest with checksum := "" } : Manifest).Same { manifest' with checksum := "" }

/-- The manifest in a file, or the default one. -/
private def manifestAt (files : ManifestFiles) (sequence : Nat) : Manifest :=
  ((files.lookup sequence).join).getD {}

private theorem sortedFiles_eq
    (parsed : ∀ sequence ∈ files, ∃ manifest, files.lookup sequence = some (some manifest)) :
    sortedFiles files = (ascending files.keys).map fun sequence =>
      (sequence, some (manifestAt files sequence)) := by
  refine List.map_congr_left fun sequence member => ?_
  obtain ⟨manifest, found⟩ := parsed sequence (mem_ascending.mp member)
  simp [manifestAt, found]

/-- Without anchors, the files of an intact chain verify and follow one another. -/
private theorem follows_of_intact (intact : (verifyHistory files).intact = true)
    (not_legacy : ∀ sequence manifest, files.lookup sequence = some (some manifest) →
      ¬manifest.IsLegacy) :
    (∀ sequence ∈ files, files.lookup sequence = some (some (manifestAt files sequence)) ∧
        (manifestAt files sequence).verifyChecksum = true) ∧
      ((ascending files.keys).map (manifestAt files)).IsChain Follows := by
  have no_breaks := verifyHistory_intact_iff.mp intact
  have verified : ∀ sequence ∈ files,
      files.lookup sequence = some (some (manifestAt files sequence)) ∧
        (manifestAt files sequence).verifyChecksum = true := by
    intro sequence member
    have listed : (sequence, (files.lookup sequence).join) ∈ sortedFiles files :=
      List.mem_map_of_mem (mem_ascending.mpr member)
    obtain ⟨manifest, is_manifest, sound⟩ := verified_or_legacy_of_verifyFiles no_breaks _ listed
    have found : files.lookup sequence = some (some manifest) := by
      obtain ⟨file, lookup_eq⟩ := Option.isSome_iff_exists.mp (AList.lookup_isSome.mpr member)
      rw [lookup_eq] at is_manifest
      rw [lookup_eq]
      exact congrArg some is_manifest
    have at_eq : manifestAt files sequence = manifest := by simp [manifestAt, found]
    rw [at_eq]
    exact ⟨found, sound.resolve_right (not_legacy sequence manifest found)⟩
  refine ⟨verified, ?_⟩
  rw [sortedFiles_eq fun sequence member => ⟨_, (verified sequence member).1⟩,
    verifyFiles_eq_nil_iff fun sequence member => (verified sequence (mem_ascending.mp member)).2]
    at no_breaks
  simpa using no_breaks

private theorem produced_at (produced : Produced files) {sequence : Nat}
    (found : files.lookup sequence = some (some manifest)) :
    manifest.checksum ≠ "" ∧ manifest.committedAt ≠ none ∧ manifest.sequence = sequence := by
  obtain ⟨draft, parent, now, is_sealed, numbered⟩ := produced sequence _ found
  obtain rfl := Option.some.inj is_sealed
  exact ⟨checksumBytes_ne_empty _, nofun, numbered⟩

/-- Going back from the newest file, every file still has its contents. -/
private theorem aligned_of_intact {before after : ManifestFiles} (produced : Produced before)
    (tampers : Tampers before after) (collision_free : CollisionFree before after)
    (intact : (verifyHistory before).intact = true) (intact' : (verifyHistory after).intact = true)
    (not_legacy : ∀ sequence manifest, after.lookup sequence = some (some manifest) →
      ¬manifest.IsLegacy) :
    ∀ pair ∈ (ascending before.keys).reverse.zip (ascending after.keys).reverse,
      (manifestAt before pair.1).Same (manifestAt after pair.2) := by
  obtain ⟨verified, chain⟩ := follows_of_intact intact fun sequence manifest found legacy =>
    (produced_at produced found).1 legacy.1
  obtain ⟨verified', chain'⟩ := follows_of_intact intact' not_legacy
  have member_of : ∀ {files : ManifestFiles} {manifest : Manifest},
      manifest ∈ ((ascending files.keys).map (manifestAt files)).reverse →
        ∃ sequence ∈ files, manifestAt files sequence = manifest := by
    intro files manifest member
    obtain ⟨sequence, listed, at_eq⟩ := List.mem_map.mp (List.mem_reverse.mp member)
    exact ⟨sequence, mem_ascending.mp listed, at_eq⟩
  have agree : ∀ pair ∈ ((ascending before.keys).map (manifestAt before)).reverse.zip
      ((ascending after.keys).map (manifestAt after)).reverse, pair.1.Same pair.2 :=
    List.IsChain.agree (List.isChain_reverse.mpr chain) (List.isChain_reverse.mpr chain') ?pinned
      ?heads
  case pinned =>
    intro newer in_newer newer' _ older in_older older' in_older' follows follows' newer_same
    obtain ⟨sequence, there, rfl⟩ := member_of in_newer
    obtain ⟨below, below_there, rfl⟩ := member_of in_older
    obtain ⟨below', below_there', rfl⟩ := member_of in_older'
    have stamped := (produced_at produced (verified sequence there).1).2.1
    have linked : (manifestAt before sequence).parentHash =
        some (manifestAt before below).checksum :=
      follows.resolve_right fun lax => stamped lax.2
    have parent_eq : newer'.parentHash = (manifestAt before sequence).parentHash := by
      rw [newer_same.fields]
    have linked' : newer'.parentHash = some (manifestAt after below').checksum :=
      follows'.resolve_right fun lax => by simp [parent_eq, linked] at lax
    have checksum_eq : (manifestAt before below).checksum = (manifestAt after below').checksum :=
      Option.some.inj (linked.symm.trans (parent_eq.symm.trans linked'))
    obtain ⟨found, sound⟩ := verified below below_there
    obtain ⟨found', sound'⟩ := verified' below' below_there'
    refine Manifest.Same.of_unsealed (collision_free below _ below' _ found found' ?_) checksum_eq
    exact (of_decide_eq_true sound).symm.trans (checksum_eq.trans (of_decide_eq_true sound'))
  case heads =>
    intro newest is_newest newest' is_newest'
    rw [List.head?_reverse, List.getLast?_map, Option.mem_map] at is_newest is_newest'
    obtain ⟨last, is_last, rfl⟩ := is_newest
    obtain ⟨last', is_last', rfl⟩ := is_newest'
    have last_there : last ∈ before := mem_ascending.mp (List.mem_of_getLast? is_last)
    have last_there' : last' ∈ after := mem_ascending.mp (List.mem_of_getLast? is_last')
    have kept : after.lookup last = before.lookup last :=
      tampers.newest last last_there fun _ member => le_of_getLast?_ascending is_last member
    have last_kept : last ∈ after := by
      rw [← AList.lookup_isSome, kept]
      exact AList.lookup_isSome.mpr last_there
    obtain rfl : last = last' := Nat.le_antisymm (le_of_getLast?_ascending is_last' last_kept)
      (le_of_getLast?_ascending is_last (tampers.retained last' last_there'))
    rw [manifestAt, manifestAt, kept]
    exact Manifest.Same.refl _
  intro pair member
  refine agree (manifestAt before pair.1, manifestAt after pair.2) ?_
  rw [← List.map_reverse, ← List.map_reverse, List.zip_map]
  exact List.mem_map_of_mem member

/-- Files that carry their own sequence cannot have moved to the name of a removed one. -/
private theorem keys_eq_of_aligned {before after : ManifestFiles} (produced : Produced before)
    (tampers : Tampers before after)
    (parsed : ∀ sequence ∈ before, before.lookup sequence = some (some (manifestAt before sequence)))
    (parsed' : ∀ sequence ∈ after, after.lookup sequence = some (some (manifestAt after sequence)))
    (aligned : ∀ pair ∈ (ascending before.keys).reverse.zip (ascending after.keys).reverse,
      (manifestAt before pair.1).Same (manifestAt after pair.2))
    (numbered : (∀ sequence ∈ before, sequence ∈ after) ∨
      ∀ sequence manifest, after.lookup sequence = some (some manifest) →
        manifest.sequence = sequence) :
    ascending after.keys = ascending before.keys := by
  rcases numbered with none_removed | numbered
  · exact ascending_eq after.keys_nodup before.keys_nodup fun sequence =>
      ⟨tampers.retained sequence, none_removed sequence⟩
  have equal : ∀ pair ∈ (ascending before.keys).reverse.zip (ascending after.keys).reverse,
      pair.1 = pair.2 := by
    intro pair member
    obtain ⟨left, right⟩ := List.of_mem_zip member
    have there : pair.1 ∈ before := mem_ascending.mp (List.mem_reverse.mp left)
    have there' : pair.2 ∈ after := mem_ascending.mp (List.mem_reverse.mp right)
    have sequence_eq := congrArg Manifest.sequence (aligned pair member).fields
    rw [numbered _ _ (parsed' _ there')] at sequence_eq
    exact (produced_at produced (parsed _ there)).2.2.symm.trans sequence_eq.symm
  have nodup := (sortedLT_ascending before.keys_nodup).nodup
  have nodup' := (sortedLT_ascending after.keys_nodup).nodup
  have length_le : (ascending after.keys).reverse.length ≤ (ascending before.keys).reverse.length := by
    rw [List.length_reverse, List.length_reverse]
    refine (List.subperm_of_subset nodup' fun sequence member => ?_).length_le
    exact mem_ascending.mpr (tampers.retained sequence (mem_ascending.mp member))
  have prefixed := List.prefix_of_zip_eq length_le equal
  cases first_eq : (ascending before.keys).head? with
  | none =>
      have empty := List.head?_eq_none_iff.mp first_eq
      have reversed_empty : (ascending after.keys).reverse <+: [] := by
        simpa [empty] using prefixed
      rw [empty]
      exact List.reverse_eq_nil_iff.mp (List.prefix_nil.mp reversed_empty)
  | some oldest =>
      have oldest_there : oldest ∈ before := mem_ascending.mp (List.mem_of_mem_head? first_eq)
      have oldest_kept : oldest ∈ after := tampers.oldest oldest oldest_there fun _ member =>
        le_of_head?_ascending first_eq member
      have reversed_eq := prefixed.eq_of_mem_getLast (List.nodup_reverse.mpr nodup)
        (List.getLast?_reverse.trans first_eq)
        (List.mem_reverse.mpr (mem_ascending.mpr oldest_kept))
      exact List.reverse_injective reversed_eq

/-- Every edit of an intact history that leaves the newest manifest alone is reported, as long as no
manifest is replaced by one in the legacy form and, if some are removed, the others still carry the
sequence in their name. -/
theorem tampering_reported {before after : ManifestFiles} (produced : Produced before)
    (intact : (verifyHistory before).intact = true) (tampers : Tampers before after)
    (collision_free : CollisionFree before after)
    (not_legacy : ∀ sequence manifest, after.lookup sequence = some (some manifest) →
      ¬manifest.IsLegacy)
    (numbered : (∀ sequence ∈ before, sequence ∈ after) ∨
      ∀ sequence manifest, after.lookup sequence = some (some manifest) →
        manifest.sequence = sequence) :
    (verifyHistory after).intact = false ∧ (verifyHistory after).breaks ≠ [] := by
  have not_intact : (verifyHistory after).intact ≠ true := by
    intro intact'
    have parsed := (follows_of_intact intact fun sequence manifest found legacy =>
      (produced_at produced found).1 legacy.1).1
    have parsed' := (follows_of_intact intact' not_legacy).1
    have aligned := aligned_of_intact produced tampers collision_free intact intact' not_legacy
    have keys_eq := keys_eq_of_aligned produced tampers (fun sequence member =>
      (parsed sequence member).1) (fun sequence member => (parsed' sequence member).1) aligned numbered
    rw [keys_eq] at aligned
    obtain ⟨sequence, different⟩ := tampers.changed
    have there_iff : sequence ∈ before ↔ sequence ∈ after := by
      change sequence ∈ before.keys ↔ sequence ∈ after.keys
      rw [← mem_ascending, ← keys_eq, mem_ascending]
    by_cases there : sequence ∈ before
    · rw [(parsed sequence there).1, (parsed' sequence (there_iff.mp there)).1] at different
      refine different (.some (.some (aligned (sequence, sequence) ?_)))
      rw [List.zip, List.zipWith_self]
      exact List.mem_map_of_mem (List.mem_reverse.mpr (mem_ascending.mpr there))
    · rw [AList.lookup_eq_none.mpr there, AList.lookup_eq_none.mpr (mt there_iff.mpr there)]
        at different
      exact different .none
  refine ⟨Bool.eq_false_iff.mpr not_intact, fun no_breaks => not_intact ?_⟩
  exact List.isEmpty_iff.mpr no_breaks

/-! ## A history of two commits -/

/-- The first manifest of a table. -/
def firstPublished : Manifest :=
  ({ formatVersion := 1, sequence := 1, schemaId := 1, nextRowId := 3, nextFragmentId := 1
     rowGroups := [{ data := "rg_a.parquet", metaFile := "rg_a.meta" }] } : Manifest).finalize none
    "2026-01-01T00:00:00Z"

/-- The second manifest of a table. -/
def secondPublished : Manifest :=
  ({ formatVersion := 1, sequence := 2, schemaId := 1, nextRowId := 6, nextFragmentId := 2
     rowGroups := [{ data := "rg_a.parquet", metaFile := "rg_a.meta" },
       { data := "rg_b.parquet", metaFile := "rg_b.meta", fragmentId := 1 }] } : Manifest).finalize
    (some firstPublished.checksum) "2026-01-02T00:00:00Z"

/-- Manifest files with the second manifest as the newest. -/
def historyFrom (first : Manifest) : ManifestFiles :=
  AList.insert 1 (some first) (AList.insert 2 (some secondPublished) ∅)

/-- The first manifest without its row group, sealed anew. -/
def forgedFirst : Manifest :=
  ({ firstPublished with rowGroups := [] } : Manifest).finalize none "2026-01-01T00:00:00Z"

/-- The first manifest without its row group, in the legacy form. -/
def blankedFirst : Manifest :=
  { firstPublished with rowGroups := [], committedAt := none, checksum := "" }

private theorem checksums_separated :
    firstPublished.computeChecksum ≠ secondPublished.computeChecksum ∧
      (∀ edited ∈ [forgedFirst, blankedFirst],
        firstPublished.computeChecksum ≠ edited.computeChecksum ∧
          secondPublished.computeChecksum ≠ edited.computeChecksum) := by
  decide +kernel

private theorem lookup_historyFrom (first : Manifest) (sequence : Nat) :
    (historyFrom first).lookup sequence =
      if sequence = 1 then some (some first)
      else if sequence = 2 then some (some secondPublished) else none := by
  by_cases is_first : sequence = 1
  · subst is_first
    simp [historyFrom]
  · rw [historyFrom, AList.lookup_insert_ne is_first, if_neg is_first]
    by_cases is_second : sequence = 2
    · subst is_second
      rw [AList.lookup_insert, if_pos rfl]
    · rw [AList.lookup_insert_ne is_second, if_neg is_second, AList.lookup_empty]

private theorem mem_historyFrom {first : Manifest} {sequence : Nat} :
    sequence ∈ historyFrom first ↔ sequence = 1 ∨ sequence = 2 := by
  rw [← AList.lookup_isSome, lookup_historyFrom]
  by_cases is_first : sequence = 1 <;> by_cases is_second : sequence = 2 <;>
    simp [is_first, is_second]

private theorem published_produced : Produced (historyFrom firstPublished) := by
  intro sequence file found
  rw [lookup_historyFrom] at found
  split at found
  · next is_first => exact ⟨_, _, _, (Option.some.inj found).symm, is_first.symm⟩
  · split at found
    · next is_second => exact ⟨_, _, _, (Option.some.inj found).symm, is_second.symm⟩
    · cases found

private theorem published_intact : (verifyHistory (historyFrom firstPublished)).intact = true := by
  rw [verifyHistory_intact_iff]
  have sorted : sortedFiles (historyFrom firstPublished) =
      [(1, some firstPublished), (2, some secondPublished)] := rfl
  have first_verified : firstPublished.verifyChecksum = true :=
    Manifest.verifyChecksum_finalize _ _ _
  have second_verified : secondPublished.verifyChecksum = true :=
    Manifest.verifyChecksum_finalize _ _ _
  rw [sorted, verifyFiles_cons_verified first_verified, verifyFiles_cons_verified second_verified]
  refine ⟨nofun, ?_, rfl⟩
  rintro predecessor ⟨⟩
  exact .inl rfl

private theorem tampers_historyFrom {first : Manifest} (different : first.rowGroups = []) :
    Tampers (historyFrom firstPublished) (historyFrom first) where
  retained _ member := mem_historyFrom.mpr (mem_historyFrom.mp member)
  oldest _ member _ := mem_historyFrom.mpr (mem_historyFrom.mp member)
  newest sequence member greatest := by
    have above := greatest 2 (mem_historyFrom.mpr (.inr rfl))
    have not_first : sequence ≠ 1 := by omega
    simp [lookup_historyFrom, not_first]
  changed := by
    refine ⟨1, fun same => ?_⟩
    rw [lookup_historyFrom, lookup_historyFrom] at same
    cases same with
    | some same =>
        cases same with
        | some same =>
            have groups := congrArg Manifest.rowGroups same.fields
            rw [different] at groups
            cases groups

private theorem collisionFree_historyFrom {first : Manifest}
    (edited : first ∈ [forgedFirst, blankedFirst]) :
    CollisionFree (historyFrom firstPublished) (historyFrom first) := by
  obtain ⟨first_second, separated⟩ := checksums_separated
  obtain ⟨first_edited, second_edited⟩ := separated first edited
  intro sequence manifest sequence' manifest' found found' checksum_eq
  rw [lookup_historyFrom] at found found'
  split at found
  · obtain rfl := Option.some.inj (Option.some.inj found)
    split at found'
    · obtain rfl := Option.some.inj (Option.some.inj found')
      exact absurd checksum_eq first_edited
    · split at found'
      · obtain rfl := Option.some.inj (Option.some.inj found')
        exact absurd checksum_eq first_second
      · cases found'
  · split at found
    · obtain rfl := Option.some.inj (Option.some.inj found)
      split at found'
      · obtain rfl := Option.some.inj (Option.some.inj found')
        exact absurd checksum_eq second_edited
      · split at found'
        · obtain rfl := Option.some.inj (Option.some.inj found')
          exact Manifest.Same.refl _
        · cases found'
    · cases found

/-- A forged first manifest is reported. -/
theorem forgedFirst_reported :
    (verifyHistory (historyFrom forgedFirst)).intact = false ∧
      (verifyHistory (historyFrom forgedFirst)).breaks ≠ [] := by
  refine tampering_reported published_produced published_intact (tampers_historyFrom rfl)
    (collisionFree_historyFrom (.head _)) ?_ (.inl fun _ => mem_historyFrom.mpr ∘ mem_historyFrom.mp)
  intro sequence manifest found legacy
  have stamped : manifest.committedAt ≠ none := by
    rw [lookup_historyFrom] at found
    split at found
    · obtain rfl := Option.some.inj (Option.some.inj found)
      exact nofun
    · split at found
      · obtain rfl := Option.some.inj (Option.some.inj found)
        exact nofun
      · cases found
  exact stamped legacy.2

/-- A first manifest whose checksum and commit time were blanked out passes for a legacy one: its
row group is gone and the history is intact. -/
theorem blankedFirst_not_reported :
    Produced (historyFrom firstPublished) ∧
      (verifyHistory (historyFrom firstPublished)).intact = true ∧
      Tampers (historyFrom firstPublished) (historyFrom blankedFirst) ∧
      CollisionFree (historyFrom firstPublished) (historyFrom blankedFirst) ∧
      (verifyHistory (historyFrom blankedFirst)).intact = true ∧
      (verifyHistory (historyFrom blankedFirst)).breaks = [] := by
  have not_verified : blankedFirst.verifyChecksum = false :=
    decide_eq_false (checksumBytes_ne_empty _).symm
  have no_breaks : verifyFiles none (sortedFiles (historyFrom blankedFirst)) = [] := by
    have sorted : sortedFiles (historyFrom blankedFirst) =
        [(1, some blankedFirst), (2, some secondPublished)] := rfl
    have verified : secondPublished.verifyChecksum = true := Manifest.verifyChecksum_finalize _ _ _
    have legacy : blankedFirst.IsLegacy := ⟨rfl, rfl⟩
    simp [sorted, verifyFiles, verifyFile, not_verified, verified, legacy, linkFault]
  refine ⟨published_produced, published_intact, tampers_historyFrom rfl,
    collisionFree_historyFrom (.tail _ (.head _)), verifyHistory_intact_iff.mpr no_breaks, ?_⟩
  rw [verifyHistory]
  exact no_breaks

end Doctor

end IcefallDB
