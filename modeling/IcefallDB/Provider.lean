import IcefallDB.CommitDelta
import IcefallDB.Lib.Options
import IcefallDB.Lib.Run

/-!
# The table provider

A provider serves scans of one table.  It is pinned to a sequence and caches the scan plan of that
sequence and the rows of a tiny table.  Scans and refreshes share the caches, each of them taking
one lock at a time; the steps of the machine below are what happens under one lock.
-/

namespace IcefallDB

variable {R F : Type}

/-- The manifests of a table, and the files that they refer to. -/
structure TableHistory (R F : Type) where
  kernel : NumericKernel R F
  /-- A file that a manifest refers to keeps its contents. -/
  storage : TableStorage R
  size : String → Option Nat
  manifests : Nat → Manifest
  numbered : ∀ sequence, (manifests sequence).sequence = sequence

/-- Thresholds of the tiny-table cache. -/
structure ProviderConfig where
  tinyTableCacheThresholdRows : Nat := 65536
  tinyTableCacheThresholdBytes : Nat := 8 * 1024 * 1024

/-! ## Scan plans -/

namespace TableHistory

variable [Double F] (history : TableHistory R F)

/-- The scan plan that the catalog loads when the table is at a sequence. -/
def loadSnapshot (sequence : Nat) : List (AggregatedRowGroup F) :=
  Reader.scanAllowMissingMeta history.kernel history.storage (history.manifests sequence)
    (history.manifests sequence).schemaId

end TableHistory

/-- The plan has the row groups of a manifest, each selected by it or by an earlier one. -/
structure TableHistory.Plans (history : TableHistory R F) (sequence : Nat)
    (plan : List (AggregatedRowGroup F)) : Prop where
  entries : (plan.map fun group => group.entry).Perm (history.manifests sequence).rowGroups
  selected : ∀ group ∈ plan, group.snapshot ≤ sequence

/-- The delta of a commit to the table. -/
structure TableDelta (history : TableHistory R F) extends CommitDelta F where
  committed : toCommitDelta.Committed
  previous : previousManifest = history.manifests previousSequence
  new : newManifest = history.manifests newSequence

/-- What another provider of the table is pinned to. -/
structure TableSnapshot (history : TableHistory R F) where
  sequence : Nat
  plan : List (AggregatedRowGroup F)
  plans : history.Plans sequence plan

section

variable {history : TableHistory R F}

theorem TableHistory.snapshot_loadSnapshot [Double F] {sequence : Nat}
    {group : AggregatedRowGroup F} (member : group ∈ history.loadSnapshot sequence) :
    group.snapshot = sequence := by
  rw [loadSnapshot, Reader.scanAllowMissingMeta, List.mem_mapIdx] at member
  obtain ⟨index, inside, rfl⟩ := member
  exact history.numbered sequence

theorem TableHistory.plans_loadSnapshot [Double F] (sequence : Nat) :
    history.Plans sequence (history.loadSnapshot sequence) := by
  constructor
  · apply List.Perm.of_eq
    rw [loadSnapshot, Reader.scanAllowMissingMeta]
    apply List.ext_getElem
    · simp
    · intro index _ _
      simp
  · intro group member
    exact (snapshot_loadSnapshot member).le

theorem TableDelta.plans_refreshRowGroups (delta : TableDelta history)
    {base : List (AggregatedRowGroup F)} (plans : history.Plans delta.previousSequence base) :
    history.Plans delta.newSequence (delta.refreshRowGroups base) := by
  constructor
  · rw [← delta.new]
    apply CommitDelta.entries_refreshRowGroups delta.committed
    rw [delta.previous]
    exact plans.entries
  · intro group member
    exact CommitDelta.snapshot_refreshRowGroups delta.committed plans.selected member

end

/-! ## Materialization -/

/-- Live rows of a row group. -/
def readLiveEntry (storage : TableStorage R) (entry : RowGroupEntry) : Option (List R) :=
  match storage.files.lookup entry.data, entry.deletes with
  | some (.data rows), none => some rows
  | some (.data rows), some path =>
      match storage.files.lookup path with
      | some (.deletions deletions) => some (liveRows deletions rows)
      | _ => none
  | _, _ => none

/-- Live rows of a list of row groups. -/
def readLiveEntries (storage : TableStorage R) (entries : List RowGroupEntry) : Option (List R) :=
  (entries.mapM (readLiveEntry storage)).map List.flatten

/-- Live rows of a scan plan. -/
def readPlan (storage : TableStorage R) (plan : List (AggregatedRowGroup F)) : Option (List R) :=
  readLiveEntries storage (plan.map fun group => group.entry)

/-- Load a table into memory, unless it has no rows. -/
def buildTinyMemTable (storage : TableStorage R) (rowGroups : List (AggregatedRowGroup F)) :
    Option (List R) :=
  if (rowGroups.map fun group => group.sidecar.rows).sum = 0 then none
  else readPlan storage rowGroups

/-- Addition that stays at the largest 64-bit number. -/
def saturatingAdd (first second : Nat) : Nat :=
  min (first + second) (2 ^ 64 - 1)

/-- Row count of a plan, counted until it passes the threshold. -/
def estimateRows (threshold : Nat) : Nat → List (AggregatedRowGroup F) → Nat
  | total, [] => total
  | total, group :: rest =>
      if threshold < saturatingAdd total group.sidecar.rows then
        saturatingAdd total group.sidecar.rows
      else estimateRows threshold (saturatingAdd total group.sidecar.rows) rest

/-- Rows and bytes of a plan; sizes are not asked for if there are too many rows. -/
def estimateTinyTableSize (config : ProviderConfig) (size : String → Option Nat)
    (plan : List (AggregatedRowGroup F)) : Option (Nat × Nat) :=
  let rows := estimateRows config.tinyTableCacheThresholdRows 0 plan
  if config.tinyTableCacheThresholdRows < rows then some (rows, 2 ^ 64 - 1)
  else
    (plan.mapM fun group => size group.entry.data).map fun sizes =>
      (rows, sizes.foldl saturatingAdd 0)

/-- The plan is loaded into memory. -/
def isTiny (config : ProviderConfig) (size : String → Option Nat)
    (plan : List (AggregatedRowGroup F)) : Bool :=
  match estimateTinyTableSize config size plan with
  | some (rows, bytes) =>
      rows ≤ config.tinyTableCacheThresholdRows || bytes ≤ config.tinyTableCacheThresholdBytes
  | none => false

theorem perm_readLiveEntries {storage : TableStorage R} {first second : List RowGroupEntry}
    (perm : first.Perm second) {rows : List R} (read : readLiveEntries storage first = some rows) :
    ∃ others, readLiveEntries storage second = some others ∧ rows.Perm others := by
  obtain ⟨parts, parts_eq, rfl⟩ := Option.map_eq_some_iff.mp read
  have readable : ∀ entry ∈ first, (readLiveEntry storage entry).isSome := by
    rw [← List.isSome_mapM, parts_eq]
    rfl
  rw [List.mapM_eq_some_filterMap readable] at parts_eq
  obtain rfl := Option.some.inj parts_eq
  have others := List.mapM_eq_some_filterMap fun entry member =>
    readable entry (perm.mem_iff.mpr member)
  refine ⟨(second.filterMap (readLiveEntry storage)).flatten, ?_, ?_⟩
  · rw [readLiveEntries, others]
    rfl
  · exact (perm.filterMap _).flatten

/-! ## Caches -/

/-- The part of a provider that scans and refreshes share. -/
structure TableProvider (R F : Type) where
  /-- The sequence that the snapshot state is of. -/
  pinnedSequence : Nat
  scanCache : Option (Nat × List (AggregatedRowGroup F))
  tinyTableCache : Option (Nat × List R)

namespace TableProvider

/-- Move the snapshot state to a sequence that was loaded, but never back. -/
def repinSnapshot (provider : TableProvider R F) (latest : Nat) : TableProvider R F :=
  if provider.pinnedSequence ≤ latest then { provider with pinnedSequence := latest } else provider

/-- The cached plan of a sequence. -/
def cachedPlan (provider : TableProvider R F) (sequence : Nat) :
    Option (List (AggregatedRowGroup F)) :=
  match provider.scanCache with
  | some (cached, plan) => if cached = sequence then some plan else none
  | none => none

/-- The cached rows under a key. -/
def cachedRows (provider : TableProvider R F) (key : Nat) : Option (List R) :=
  match provider.tinyTableCache with
  | some (cached, rows) => if cached = key then some rows else none
  | none => none

theorem cachedPlan_eq_some {provider : TableProvider R F} {sequence : Nat}
    {plan : List (AggregatedRowGroup F)} :
    provider.cachedPlan sequence = some plan ↔ provider.scanCache = some (sequence, plan) := by
  rw [cachedPlan]
  split
  · rename_i cached other cache_eq
    rw [cache_eq, Option.some.injEq, Prod.mk.injEq]
    split
    · rename_i same
      simp [same]
    · rename_i different
      simp [different]
  · rename_i cache_eq
    simp [cache_eq]

theorem cachedRows_eq_some {provider : TableProvider R F} {key : Nat} {rows : List R} :
    provider.cachedRows key = some rows ↔ provider.tinyTableCache = some (key, rows) := by
  rw [cachedRows]
  split
  · rename_i cached other cache_eq
    rw [cache_eq, Option.some.injEq, Prod.mk.injEq]
    split
    · rename_i same
      simp [same]
    · rename_i different
      simp [different]
  · rename_i cache_eq
    simp [cache_eq]

end TableProvider

/-! ## Loading the current plan -/

/-- Where the load of the current scan plan stands, with the number of tries left. -/
inductive Planning
  | start (tries : Nat)
  | pinned (tries pinned : Nat)
  | missed (tries pinned : Nat)
  | loaded (tries pinned latest : Nat)
  | repinned (tries latest : Nat)
  | checked (latest : Nat)

variable [Double F]

/-- The next step of loading the current scan plan: the provider after it, and the plan if it is the
last step. -/
def Planning.advance (history : TableHistory R F) (latest : Nat) (provider : TableProvider R F) :
    Planning → TableProvider R F × (Planning ⊕ List (AggregatedRowGroup F))
  -- after too many tries the plan is loaded and not cached
  | .start 0 => (provider, .inr (history.loadSnapshot latest))
  | .start (tries + 1) => (provider, .inl (.pinned tries provider.pinnedSequence))
  | .pinned tries sequence =>
      match provider.cachedPlan sequence with
      | some plan => (provider, .inr plan)
      | none => (provider, .inl (.missed tries sequence))
  | .missed tries sequence => (provider, .inl (.loaded tries sequence latest))
  | .loaded tries sequence found =>
      (if found ≠ sequence then provider.repinSnapshot found else provider,
        .inl (.repinned tries found))
  | .repinned tries found =>
      if provider.pinnedSequence ≠ found then (provider, .inl (.start tries))
      else (provider, .inl (.checked found))
  | .checked found =>
      ({ provider with scanCache := some (found, history.loadSnapshot found) },
        .inr (history.loadSnapshot found))

/-! ## Scans -/

/-- Where a scan stands. -/
inductive Scan (R F : Type)
  /-- The plan is being loaded; the scan may have to bypass the tiny-table cache. -/
  | planning (bypassed : Bool) (planning : Planning)
  | planned (bypassed : Bool) (plan : List (AggregatedRowGroup F))
  /-- The table is being loaded into memory, to be stored under a key. -/
  | loading (key : Nat) (plan : List (AggregatedRowGroup F))
  /-- The scan serves rows from the tiny-table cache. -/
  | served (plan : List (AggregatedRowGroup F)) (rows : List R)
  /-- The scan is done with the tiny-table cache. -/
  | passed

/-- The key of the tiny-table cache: the snapshot that selected the first row group left. -/
def tinyTableKey (plan pruned : List (AggregatedRowGroup F)) : Nat :=
  match pruned.head?, plan.head? with
  | some group, _ => group.snapshot
  | none, some group => group.snapshot
  | none, none => 0

/-- Look the tiny-table cache up, with the row groups that pruning keeps. -/
def TableProvider.lookupTinyTable (config : ProviderConfig) (history : TableHistory R F)
    (provider : TableProvider R F) (bypassed : Bool) (plan : List (AggregatedRowGroup F))
    (keep : AggregatedRowGroup F → Bool) : Scan R F :=
  if bypassed || plan.isEmpty then .passed
  else
    let key := tinyTableKey plan (plan.filter keep)
    match provider.cachedRows key with
    | some rows => .served plan rows
    | none => if isTiny config history.size (plan.filter keep) then .loading key plan else .passed

/-- The next step of a scan. -/
def Scan.advance (config : ProviderConfig) (history : TableHistory R F) (latest : Nat)
    (keep : AggregatedRowGroup F → Bool) (provider : TableProvider R F) :
    Scan R F → TableProvider R F × Scan R F
  | .planning bypassed load =>
      match load.advance history latest provider with
      | (provider, .inl next) => (provider, .planning bypassed next)
      | (provider, .inr plan) => (provider, .planned bypassed plan)
  | .planned bypassed plan =>
      (provider, provider.lookupTinyTable config history bypassed plan keep)
  | .loading key plan =>
      match buildTinyMemTable history.storage plan with
      | some rows => ({ provider with tinyTableCache := some (key, rows) }, .passed)
      | none => (provider, .passed)
  | scan => (provider, scan)

/-! ## Refreshes -/

/-- Where the refresh that holds the lock of refreshes stands. -/
inductive Refresh (history : TableHistory R F)
  /-- The delta starts from the pinned sequence. -/
  | checked (delta : TableDelta history)
  /-- The base plan is being loaded. -/
  | basing (delta : TableDelta history) (planning : Planning)
  /-- The snapshot state is to be installed; there may be no plan for it. -/
  | installing (sequence : Nat) (plan : Option (List (AggregatedRowGroup F)))
  /-- The snapshot state is installed, the scan plan is not. -/
  | installed (sequence : Nat) (plan : Option (List (AggregatedRowGroup F)))
  /-- The tiny-table cache is to be cleared. -/
  | cached

variable {history : TableHistory R F}

/-- Begin to apply a committed delta, unless it changes nothing or is stale. -/
def Refresh.apply (provider : TableProvider R F) (delta : TableDelta history) :
    Option (Refresh history) :=
  if delta.isNoop then none
  else if provider.pinnedSequence ≠ delta.previousSequence then none
  else some (.checked delta)

/-- The next step of a refresh; after the last one the lock is free. -/
def Refresh.advance (latest : Nat) (provider : TableProvider R F) :
    Refresh history → TableProvider R F × Option (Refresh history)
  | .checked delta =>
      match provider.cachedPlan delta.previousSequence with
      | some _ => (provider, some (.basing delta (.start 16)))
      | none => (provider, some (.installing delta.newSequence none))
  | .basing delta planning =>
      match planning.advance history latest provider with
      | (provider, .inl planning) => (provider, some (.basing delta planning))
      | (provider, .inr base) =>
          (provider, some (.installing delta.newSequence (some (delta.refreshRowGroups base))))
  | .installing sequence plan =>
      ({ provider with pinnedSequence := sequence }, some (.installed sequence plan))
  | .installed sequence plan =>
      ({ provider with scanCache := plan.map fun plan => (sequence, plan) }, some .cached)
  | .cached => ({ provider with tinyTableCache := none }, none)

/-- The refresh can no longer fail. -/
def Refresh.isInstalling : Refresh history → Bool
  | .installed _ _ | .cached => true
  | _ => false

/-! ## Runs -/

/-- A provider with its scans and its refresh, over a table at a sequence. -/
structure ProviderSystem (history : TableHistory R F) where
  /-- The sequence of the live manifest. -/
  latest : Nat
  provider : TableProvider R F
  refresh : Option (Refresh history)
  scans : HashMap Nat (Scan R F)

/-- What can happen next. -/
inductive ProviderEvent (history : TableHistory R F)
  /-- A commit to the table, by any writer. -/
  | commit (sequence : Nat)
  /-- A new scan, which may have to bypass the tiny-table cache. -/
  | scan (id : Nat) (bypassed : Bool)
  /-- A scan takes a step; pruning keeps some row groups. -/
  | advanceScan (id : Nat) (keep : AggregatedRowGroup F → Bool)
  /-- `apply_committed_delta` takes the lock of refreshes. -/
  | applyCommittedDelta (delta : TableDelta history)
  /-- `replace_snapshot_from` takes the lock of refreshes. -/
  | replaceSnapshotFrom (source : TableSnapshot history)
  /-- The refresh takes a step. -/
  | advanceRefresh
  /-- The refresh fails before it installs anything. -/
  | failRefresh

namespace ProviderSystem

/-- What happens on an event; an event that cannot happen changes nothing. -/
def perform (config : ProviderConfig) (system : ProviderSystem history) :
    ProviderEvent history → ProviderSystem history
  | .commit sequence => { system with latest := max system.latest sequence }
  | .scan id bypassed =>
      match system.scans.lookup id with
      | some _ => system
      | none => { system with scans := system.scans.insert id (.planning bypassed (.start 16)) }
  | .advanceScan id keep =>
      match system.scans.lookup id with
      | some scan =>
          let advanced := scan.advance config history system.latest keep system.provider
          { system with provider := advanced.1, scans := system.scans.insert id advanced.2 }
      | none => system
  | .applyCommittedDelta delta =>
      match system.refresh with
      | some _ => system
      | none => { system with refresh := Refresh.apply system.provider delta }
  | .replaceSnapshotFrom source =>
      match system.refresh with
      | some _ => system
      | none => { system with refresh := some (.installing source.sequence (some source.plan)) }
  | .advanceRefresh =>
      match system.refresh with
      | some refresh =>
          let advanced := refresh.advance system.latest system.provider
          { system with provider := advanced.1, refresh := advanced.2 }
      | none => system
  | .failRefresh =>
      match system.refresh with
      | some refresh => if refresh.isInstalling then system else { system with refresh := none }
      | none => system

/-- A provider that was just opened, with the plan of its snapshot in the cache or not. -/
def opened (latest : Nat) (snapshot : TableSnapshot history) (seeded : Bool) :
    ProviderSystem history where
  latest
  provider :=
    { pinnedSequence := snapshot.sequence
      scanCache := if seeded then some (snapshot.sequence, snapshot.plan) else none
      tinyTableCache := none }
  refresh := none
  scans := ∅

end ProviderSystem

end IcefallDB
