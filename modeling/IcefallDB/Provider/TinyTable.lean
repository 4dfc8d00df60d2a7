import IcefallDB.Provider

/-!
# Rows served from the tiny-table cache

The key of the tiny-table cache is carried by the row groups of the plan, and a refresh keeps it for
every row group that was there before.  Rows in the cache are those of the plan of a scan that finds
its key there if no refresh comes between the load of the plan and the use of the cache.
-/

namespace IcefallDB

variable {R F : Type} {history : TableHistory R F}

/-! ## Rows of a plan -/

/-- The rows are the live rows of a manifest. -/
def TableHistory.HoldsRows (history : TableHistory R F) (sequence : Nat) (rows : List R) : Prop :=
  ∃ live, readLiveEntries history.storage (history.manifests sequence).rowGroups = some live ∧
    rows.Perm live

/-- The rows are the live rows of a plan. -/
def TableHistory.ServesPlan (history : TableHistory R F) (plan : List (AggregatedRowGroup F))
    (rows : List R) : Prop :=
  ∃ live, readPlan history.storage plan = some live ∧ rows.Perm live

variable {plan : List (AggregatedRowGroup F)} {rows : List R}

theorem servesPlan_iff_holdsRows {sequence : Nat} (plans : history.Plans sequence plan) :
    history.ServesPlan plan rows ↔ history.HoldsRows sequence rows := by
  constructor
  · rintro ⟨live, read, same⟩
    obtain ⟨others, others_eq, others_perm⟩ := perm_readLiveEntries plans.entries read
    exact ⟨others, others_eq, same.trans others_perm⟩
  · rintro ⟨live, read, same⟩
    obtain ⟨others, others_eq, others_perm⟩ := perm_readLiveEntries plans.entries.symm read
    exact ⟨others, others_eq, same.trans others_perm⟩

/-- A row group of the plan carries the key. -/
def Keyed (plan : List (AggregatedRowGroup F)) (key : Nat) : Prop :=
  ∃ group ∈ plan, group.snapshot = key

theorem keyed_tinyTableKey (nonempty : plan ≠ []) (keep : AggregatedRowGroup F → Bool) :
    Keyed plan (tinyTableKey plan (plan.filter keep)) := by
  rw [tinyTableKey]
  split
  · rename_i group head_eq
    exact ⟨group, List.mem_of_mem_filter (List.mem_of_mem_head? head_eq), rfl⟩
  · rename_i group _ head_eq
    exact ⟨group, List.mem_of_mem_head? head_eq, rfl⟩
  · rename_i head_eq
    exact absurd (List.head?_eq_none_iff.mp head_eq) nonempty

theorem readPlan_of_buildTinyMemTable {storage : TableStorage R}
    (built : buildTinyMemTable storage plan = some rows) : readPlan storage plan = some rows := by
  rw [buildTinyMemTable] at built
  split at built
  · cases built
  · exact built

namespace TableProvider

/-! ## What the caches hold -/

/-- The cached plan is a plan of the sequence that it is cached under. -/
def CachesPlans (history : TableHistory R F) (provider : TableProvider R F) : Prop :=
  ∀ sequence plan, provider.scanCache = some (sequence, plan) → history.Plans sequence plan

/-- A plan that is cached ahead of the pinned sequence was loaded from its manifest. -/
def AheadLoaded (provider : TableProvider R F) : Prop :=
  ∀ sequence plan, provider.scanCache = some (sequence, plan) →
    provider.pinnedSequence < sequence → ∀ key, Keyed plan key → key = sequence

/-- Rows cached under a key that a plan of the pinned sequence may have are its rows. -/
def TinyFresh (history : TableHistory R F) (provider : TableProvider R F) : Prop :=
  ∀ key rows, provider.tinyTableCache = some (key, rows) → key ≤ provider.pinnedSequence ∧
    ((key = provider.pinnedSequence ∨ ∃ plan, provider.scanCache =
        some (provider.pinnedSequence, plan) ∧ Keyed plan key) →
      history.HoldsRows provider.pinnedSequence rows)

section

variable [Double F]

/-- What loading the current plan does to the provider. -/
inductive Loads (history : TableHistory R F) (provider : TableProvider R F) :
    TableProvider R F → Prop
  | same : Loads history provider provider
  | repin {latest : Nat} (ahead : provider.pinnedSequence ≤ latest) :
      Loads history provider { provider with pinnedSequence := latest }
  | cache (sequence : Nat) :
      Loads history provider
        { provider with scanCache := some (sequence, history.loadSnapshot sequence) }

theorem loads_repinSnapshot (provider : TableProvider R F) (latest : Nat) :
    Loads history provider (provider.repinSnapshot latest) := by
  rw [repinSnapshot]
  split
  · rename_i ahead
    exact .repin ahead
  · exact .same

theorem loads_advance (latest : Nat) (provider : TableProvider R F) (planning : Planning) :
    Loads history provider (planning.advance history latest provider).1 := by
  cases planning with
  | start tries => cases tries <;> exact .same
  | pinned tries sequence =>
      rw [Planning.advance]
      split <;> exact .same
  | missed tries sequence => exact .same
  | loaded tries sequence found =>
      rw [Planning.advance]
      split
      · exact loads_repinSnapshot provider found
      · exact .same
  | repinned tries found =>
      rw [Planning.advance]
      split <;> exact .same
  | checked found => exact .cache found

section

variable {provider next : TableProvider R F} (loads : Loads history provider next)
include loads

theorem Loads.pinned_le : provider.pinnedSequence ≤ next.pinnedSequence := by
  cases loads with
  | same => exact le_refl _
  | repin ahead => exact ahead
  | cache sequence => exact le_refl _

theorem CachesPlans.of_loads (plans : provider.CachesPlans history) : next.CachesPlans history := by
  cases loads with
  | same => exact plans
  | repin ahead => exact plans
  | cache sequence =>
      intro other plan cache_eq
      cases cache_eq
      exact TableHistory.plans_loadSnapshot sequence

theorem AheadLoaded.of_loads (ahead : provider.AheadLoaded) : next.AheadLoaded := by
  cases loads with
  | same => exact ahead
  | repin later =>
      intro sequence plan cache_eq behind
      exact ahead sequence plan cache_eq (later.trans_lt behind)
  | cache sequence =>
      intro other plan cache_eq _ key keyed
      cases cache_eq
      obtain ⟨group, member, rfl⟩ := keyed
      exact TableHistory.snapshot_loadSnapshot member

theorem TinyFresh.of_loads (ahead : provider.AheadLoaded) (fresh : provider.TinyFresh history) :
    next.TinyFresh history := by
  cases loads with
  | same => exact fresh
  | @repin latest later =>
      intro key rows cache_eq
      obtain ⟨key_le, holds⟩ := fresh key rows cache_eq
      constructor
      · exact key_le.trans later
      · obtain same | moved := later.eq_or_lt
        · rw [← same]
          exact holds
        · rintro (pinned | ⟨plan, plan_eq, keyed⟩)
          · change key = latest at pinned
            omega
          · have loaded := ahead latest plan plan_eq moved key keyed
            omega
  | cache sequence =>
      intro key rows cache_eq
      obtain ⟨key_le, holds⟩ := fresh key rows cache_eq
      constructor
      · exact key_le
      · rintro (pinned | ⟨plan, plan_eq, group, member, rfl⟩)
        · exact holds (.inl pinned)
        · obtain ⟨sequence_eq, rfl⟩ := Prod.mk.inj (Option.some.inj plan_eq)
          have loaded := TableHistory.snapshot_loadSnapshot member
          exact holds (.inl (loaded.trans sequence_eq))

end

end

/-- Rows of the cached plan of the pinned sequence may be stored. -/
theorem TinyFresh.store {provider : TableProvider R F} (plans : provider.CachesPlans history)
    (current : provider.cachedPlan provider.pinnedSequence = some plan) {key : Nat}
    (keyed : Keyed plan key) (built : buildTinyMemTable history.storage plan = some rows) :
    TinyFresh history { provider with tinyTableCache := some (key, rows) } := by
  have planned := plans _ _ (cachedPlan_eq_some.mp current)
  intro other stored cache_eq
  cases cache_eq
  obtain ⟨group, member, rfl⟩ := keyed
  constructor
  · exact planned.selected group member
  · intro _
    exact (servesPlan_iff_holdsRows planned).mp
      ⟨rows, readPlan_of_buildTinyMemTable built, List.Perm.refl rows⟩

/-- Rows found for the cached plan of the pinned sequence are its rows. -/
theorem TinyFresh.serves {provider : TableProvider R F} (plans : provider.CachesPlans history)
    (fresh : provider.TinyFresh history)
    (current : provider.cachedPlan provider.pinnedSequence = some plan) {key : Nat}
    (keyed : Keyed plan key) (found : provider.cachedRows key = some rows) :
    history.ServesPlan plan rows := by
  have cache_eq := cachedPlan_eq_some.mp current
  apply (servesPlan_iff_holdsRows (plans _ _ cache_eq)).mpr
  exact (fresh key rows (cachedRows_eq_some.mp found)).2 (.inr ⟨plan, cache_eq, keyed⟩)

end TableProvider

/-! ## Runs -/

/-- What a scan has found out. -/
def Scan.Sound (history : TableHistory R F) : Scan R F → Prop
  | .loading key plan => Keyed plan key
  | .served plan rows => history.ServesPlan plan rows
  | _ => True

/-- What a refresh has found out. -/
def Refresh.Sound (provider : TableProvider R F) : Refresh history → Prop
  | .basing delta planning =>
      planning = .start 16 ∨ planning = .pinned 15 delta.previousSequence
  | .installing sequence plan => ∀ groups ∈ plan, history.Plans sequence groups
  | .installed sequence plan =>
      sequence ≤ provider.pinnedSequence ∧ ∀ groups ∈ plan, history.Plans sequence groups
  | _ => True

namespace ProviderSystem

/-- No refresh is between installing its snapshot state and clearing the tiny-table cache. -/
def Settled (system : ProviderSystem history) : Prop :=
  ∀ refresh, system.refresh = some refresh → refresh.isInstalling = false

/-- The provider would give the plan to a scan that loads its plan now. -/
def Current (system : ProviderSystem history) (plan : List (AggregatedRowGroup F)) : Prop :=
  system.provider.cachedPlan system.provider.pinnedSequence = some plan

/-- A scan that finds its key in the tiny-table cache, or stores rows there, still has the current
plan and finds no refresh installing; a refresh finds the plan that its delta starts from. -/
def Undisturbed (system : ProviderSystem history) : ProviderEvent history → Prop
  | .advanceScan id keep =>
      match system.scans.lookup id with
      | some (.planned bypassed plan) =>
          bypassed = false →
            (system.provider.cachedRows (tinyTableKey plan (plan.filter keep))).isSome →
              system.Settled ∧ system.Current plan
      | some (.loading _ plan) => system.Settled ∧ system.Current plan
      | _ => True
  | .advanceRefresh =>
      match system.refresh with
      | some (.basing delta _) =>
          system.provider.pinnedSequence = delta.previousSequence ∧
            (system.provider.cachedPlan delta.previousSequence).isSome
      | _ => True
  | _ => True

/-- The rows that scans serve from the tiny-table cache are the live rows of their plans. -/
def ServesFresh (system : ProviderSystem history) : Prop :=
  ∀ id plan rows, system.scans.lookup id = some (.served plan rows) → history.ServesPlan plan rows

/-- What holds between the steps of an undisturbed run. -/
structure Coherent (system : ProviderSystem history) : Prop where
  plans : system.provider.CachesPlans history
  ahead : (∀ sequence plan, system.refresh ≠ some (.installed sequence plan)) →
    system.provider.AheadLoaded
  fresh : system.Settled → system.provider.TinyFresh history
  refresh : ∀ refresh, system.refresh = some refresh → refresh.Sound system.provider
  scans : ∀ id scan, system.scans.lookup id = some scan → scan.Sound history

namespace Coherent

variable {system : ProviderSystem history}

theorem insert_scan (coherent : system.Coherent) (id : Nat) {scan : Scan R F}
    (sound : scan.Sound history) :
    Coherent { system with scans := system.scans.insert id scan } := by
  constructor
  · exact coherent.plans
  · exact coherent.ahead
  · exact coherent.fresh
  · exact coherent.refresh
  · intro other found lookup
    by_cases same : other = id
    · rw [same, AList.lookup_insert] at lookup
      exact Option.some.inj lookup ▸ sound
    · rw [AList.lookup_insert_ne same] at lookup
      exact coherent.scans other found lookup

/-- A refresh that does not install leaves the caches to the scans. -/
theorem set_refresh (coherent : system.Coherent) (settled : system.Settled)
    {refresh : Option (Refresh history)}
    (next_settled : ∀ next ∈ refresh, next.isInstalling = false ∧ next.Sound system.provider) :
    Coherent { system with refresh } := by
  constructor
  · exact coherent.plans
  · intro _
    apply coherent.ahead
    intro sequence plan installed
    cases settled _ installed
  · intro _
    exact coherent.fresh settled
  · intro next next_eq
    exact (next_settled next next_eq).2
  · exact coherent.scans

/-- Rows of the current plan may be stored while no refresh installs. -/
theorem store (coherent : system.Coherent) (current : system.Current plan) {key : Nat}
    (keyed : Keyed plan key) (built : buildTinyMemTable history.storage plan = some rows) :
    Coherent
      { system with provider := { system.provider with tinyTableCache := some (key, rows) } } := by
  constructor
  · exact coherent.plans
  · exact coherent.ahead
  · intro _
    exact TableProvider.TinyFresh.store coherent.plans current keyed built
  · exact coherent.refresh
  · exact coherent.scans

variable [Double F]

theorem of_loads (coherent : system.Coherent) {provider : TableProvider R F}
    (loads : TableProvider.Loads history system.provider provider) :
    Coherent { system with provider } := by
  constructor
  · exact coherent.plans.of_loads loads
  · intro not_installed
    exact (coherent.ahead not_installed).of_loads loads
  · intro settled
    have ahead := coherent.ahead fun sequence plan installed => by cases settled _ installed
    exact (coherent.fresh settled).of_loads loads ahead
  · intro refresh refresh_eq
    have sound := coherent.refresh refresh refresh_eq
    cases refresh with
    | installed sequence plan => exact ⟨sound.1.trans loads.pinned_le, sound.2⟩
    | checked delta => exact trivial
    | basing delta planning => exact sound
    | installing sequence plan => exact sound
    | cached => exact trivial
  · exact coherent.scans

/-! ### Steps of a scan -/

variable (config : ProviderConfig)

theorem advanceScan (coherent : system.Coherent) {id : Nat} {keep : AggregatedRowGroup F → Bool}
    (undisturbed : system.Undisturbed (.advanceScan id keep)) :
    (system.perform config (.advanceScan id keep)).Coherent := by
  rw [perform]
  cases found : system.scans.lookup id with
  | none => exact coherent
  | some scan =>
      have sound := coherent.scans id scan found
      rw [Undisturbed, found] at undisturbed
      cases scan with
      | planning bypassed load =>
          have loads : TableProvider.Loads history system.provider
              (load.advance history system.latest system.provider).1 :=
            TableProvider.loads_advance system.latest system.provider load
          simp only [Scan.advance]
          cases advanced : load.advance history system.latest system.provider with
          | mk provider next =>
              rw [advanced] at loads
              cases next with
              | inl next => exact (coherent.of_loads loads).insert_scan id trivial
              | inr plan => exact (coherent.of_loads loads).insert_scan id trivial
      | planned bypassed plan =>
          apply coherent.insert_scan
          simp only [Scan.advance, TableProvider.lookupTinyTable]
          split
          · exact trivial
          · rename_i used
            rw [Bool.or_eq_true, not_or, Bool.not_eq_true, List.isEmpty_iff] at used
            have keyed := keyed_tinyTableKey used.2 keep
            split
            · rename_i rows cached
              obtain ⟨settled, current⟩ := undisturbed used.1 (by rw [cached]; rfl)
              exact TableProvider.TinyFresh.serves coherent.plans (coherent.fresh settled) current
                keyed cached
            · split
              · exact keyed
              · exact trivial
      | loading key plan =>
          simp only [Scan.advance]
          split
          · rename_i rows built
            exact (coherent.store undisturbed.2 sound built).insert_scan id trivial
          · exact coherent.insert_scan id trivial
      | served plan rows => exact coherent.insert_scan id sound
      | passed => exact coherent.insert_scan id trivial

/-! ### Steps of a refresh -/

theorem advanceRefresh (coherent : system.Coherent)
    (undisturbed : system.Undisturbed .advanceRefresh) :
    (system.perform config .advanceRefresh).Coherent := by
  rw [perform]
  cases found : system.refresh with
  | none => exact coherent
  | some refresh =>
      have sound := coherent.refresh refresh found
      rw [Undisturbed, found] at undisturbed
      have settled_of (idle : refresh.isInstalling = false) : system.Settled := by
        intro other other_eq
        rw [found] at other_eq
        exact Option.some.inj other_eq ▸ idle
      cases refresh with
      | checked delta =>
          simp only [Refresh.advance]
          split
          · apply coherent.set_refresh (settled_of rfl)
            rintro _ ⟨⟩
            exact ⟨rfl, .inl rfl⟩
          · apply coherent.set_refresh (settled_of rfl)
            rintro _ ⟨⟩
            exact ⟨rfl, fun groups none_eq => by cases none_eq⟩
      | basing delta planning =>
          obtain ⟨pinned_eq, warm⟩ := undisturbed
          obtain ⟨base, base_eq⟩ := Option.isSome_iff_exists.mp warm
          obtain rfl | rfl := sound
          · simp only [Refresh.advance, Planning.advance]
            apply coherent.set_refresh (settled_of rfl)
            rintro _ ⟨⟩
            exact ⟨rfl, .inr (congrArg (Planning.pinned 15) pinned_eq)⟩
          · simp only [Refresh.advance, Planning.advance, base_eq]
            apply coherent.set_refresh (settled_of rfl)
            rintro _ ⟨⟩
            constructor
            · rfl
            · rintro _ ⟨⟩
              apply delta.plans_refreshRowGroups
              exact coherent.plans _ _ (TableProvider.cachedPlan_eq_some.mp base_eq)
      | installing sequence plan =>
          constructor
          · exact coherent.plans
          · intro not_installed
            exact absurd rfl (not_installed sequence plan)
          · intro settled
            cases settled _ rfl
          · rintro _ ⟨⟩
            exact ⟨le_refl _, sound⟩
          · exact coherent.scans
      | installed sequence plan =>
          constructor
          · intro other groups cache_eq
            obtain ⟨cached, cached_eq, pair_eq⟩ := Option.map_eq_some_iff.mp cache_eq
            cases pair_eq
            exact sound.2 groups cached_eq
          · intro _ other groups cache_eq behind
            obtain ⟨cached, cached_eq, pair_eq⟩ := Option.map_eq_some_iff.mp cache_eq
            cases pair_eq
            exact absurd sound.1 (Nat.not_le.mpr behind)
          · intro settled
            cases settled _ rfl
          · rintro _ ⟨⟩
            trivial
          · exact coherent.scans
      | cached =>
          constructor
          · exact coherent.plans
          · intro _
            apply coherent.ahead
            intro sequence plan installed
            rw [found] at installed
            cases installed
          · intro _ key rows cache_eq
            cases cache_eq
          · intro next next_eq
            cases next_eq
          · exact coherent.scans

/-- Every event keeps what holds between the steps of an undisturbed run. -/
theorem perform (coherent : system.Coherent) (event : ProviderEvent history)
    (undisturbed : system.Undisturbed event) : (system.perform config event).Coherent := by
  have settled_of (free : system.refresh = none) : system.Settled := by
    intro refresh refresh_eq
    rw [free] at refresh_eq
    cases refresh_eq
  cases event with
  | commit sequence =>
      exact ⟨coherent.plans, coherent.ahead, coherent.fresh, coherent.refresh, coherent.scans⟩
  | scan id bypassed =>
      rw [ProviderSystem.perform]
      split
      · exact coherent
      · exact coherent.insert_scan id trivial
  | advanceScan id keep => exact coherent.advanceScan config undisturbed
  | applyCommittedDelta delta =>
      rw [ProviderSystem.perform]
      split
      · exact coherent
      · rename_i free
        apply coherent.set_refresh (settled_of free)
        intro next next_eq
        rw [Refresh.apply] at next_eq
        split at next_eq
        · cases next_eq
        · split at next_eq
          · cases next_eq
          · cases next_eq
            exact ⟨rfl, trivial⟩
  | replaceSnapshotFrom source =>
      rw [ProviderSystem.perform]
      split
      · exact coherent
      · rename_i free
        apply coherent.set_refresh (settled_of free)
        rintro _ ⟨⟩
        constructor
        · rfl
        · rintro _ ⟨⟩
          exact source.plans
  | advanceRefresh => exact coherent.advanceRefresh config undisturbed
  | failRefresh =>
      rw [ProviderSystem.perform]
      split
      · rename_i refresh found
        split
        · exact coherent
        · rename_i idle
          apply coherent.set_refresh
          · intro other other_eq
            rw [found] at other_eq
            exact Option.some.inj other_eq ▸ Bool.eq_false_iff.mpr idle
          · intro next next_eq
            cases next_eq
      · exact coherent

end Coherent

theorem coherent_opened (latest : Nat) (snapshot : TableSnapshot history) (seeded : Bool) :
    (opened latest snapshot seeded).Coherent := by
  have cached : ∀ sequence plan, (opened latest snapshot seeded).provider.scanCache =
      some (sequence, plan) → sequence = snapshot.sequence ∧ plan = snapshot.plan := by
    intro sequence plan cache_eq
    cases seeded with
    | false => cases cache_eq
    | true =>
        cases cache_eq
        exact ⟨rfl, rfl⟩
  constructor
  · intro sequence plan cache_eq
    obtain ⟨rfl, rfl⟩ := cached sequence plan cache_eq
    exact snapshot.plans
  · intro _ sequence plan cache_eq behind
    obtain ⟨rfl, rfl⟩ := cached sequence plan cache_eq
    exact absurd behind (lt_irrefl _)
  · intro _ key rows cache_eq
    cases cache_eq
  · intro refresh refresh_eq
    cases refresh_eq
  · intro id scan lookup
    cases lookup

variable [Double F]

/-- In an undisturbed run scans serve only live rows of their plans from the tiny-table cache. -/
theorem servesFresh_of_undisturbed (config : ProviderConfig) (latest : Nat)
    (snapshot : TableSnapshot history) (seeded : Bool) (events : List (ProviderEvent history))
    (undisturbed : Run.Along (perform config) Undisturbed (opened latest snapshot seeded) events) :
    (Run.after (perform config) (opened latest snapshot seeded) events).ServesFresh := by
  have keeps : ∀ (system : ProviderSystem history) event, system.Coherent →
      system.Undisturbed event → (system.perform config event).Coherent :=
    fun _ event coherent => coherent.perform config event
  have coherent := Run.invariant keeps (coherent_opened latest snapshot seeded) undisturbed
  intro id plan rows served
  exact coherent.scans id _ served

/-! ## A slow scan -/

namespace SlowScan

def entry : RowGroupEntry :=
  { data := "rg_1.parquet", metaFile := "rg_1.meta" }

def deletedEntry : RowGroupEntry :=
  { entry with deletes := some "_deletions/rg_0000000000000000__v2.del", deletedCount := 1 }

def first : Manifest :=
  { sequence := 1, schemaId := 1, rowGroups := [entry], rowCounts := some [2], nextRowId := 2,
    nextFragmentId := 1 }

def second : Manifest :=
  { first with sequence := 2, rowGroups := [deletedEntry] }

/-- A table with two rows, the first of which is deleted by the second commit. -/
def table : TableHistory Int Int where
  kernel :=
    { columns := ∅
      intValue := fun _ _ => none
      floatValue := fun _ _ => none }
  storage :=
    { pointer := .latest 2
      manifests := ((∅ : HashMap Nat Manifest).insert 1 first).insert 2 second
      log := []
      files := ((∅ : HashMap String (File Int)).insert "rg_1.parquet" (.data [10, 20])).insert
        "_deletions/rg_0000000000000000__v2.del" (.deletions {0})
      intents := ∅
      schemaPointer := some 1 }
  size := fun _ => some 1000
  manifests
    | 1 => first
    | 2 => second
    | sequence => { sequence }
  numbered
    | 0 => rfl
    | 1 => rfl
    | 2 => rfl
    | _ + 3 => rfl

def opening : TableSnapshot table where
  sequence := 1
  plan := table.loadSnapshot 1
  plans := TableHistory.plans_loadSnapshot 1

/-- The delta of the second commit. -/
def delete : TableDelta table where
  previousSequence := 1
  newSequence := 2
  previousManifest := first
  newManifest := second
  addedRowGroups := []
  committed := by
    constructor
    · rfl
    · rfl
    · decide
    · decide
    · decide
    · decide
    · exact List.Perm.refl []
    · intro group member
      cases member
  previous := rfl
  new := rfl

/-- A step of a scan without filters. -/
def step (id : Nat) : ProviderEvent table :=
  .advanceScan id fun _ => true

/-- A scan that loads its plan from the catalog. -/
def slowScan : List (ProviderEvent table) :=
  .scan 0 false :: List.replicate 7 (step 0)

/-- A scan that finds its plan in the cache. -/
def fastScan : List (ProviderEvent table) :=
  .scan 1 false :: List.replicate 3 (step 1)

def refresh : List (ProviderEvent table) :=
  .applyCommittedDelta delete :: List.replicate 6 .advanceRefresh

/-- The slow scan stores the rows of its plan when the delete is committed and applied. -/
def events : List (ProviderEvent table) :=
  slowScan ++ .commit 2 :: refresh ++ step 0 :: fastScan

/-- The second scan serves the row that the plan it loaded no longer has. -/
theorem serves_deleted : ¬(Run.after (perform {}) (opened 1 opening false) events).ServesFresh := by
  intro fresh
  obtain ⟨live, live_eq, same⟩ := fresh 1
    (delete.refreshRowGroups (table.loadSnapshot 1)) [10, 20] rfl
  have read : readPlan table.storage (delete.refreshRowGroups (table.loadSnapshot 1)) =
    some [20] := by decide +kernel
  rw [read] at live_eq
  obtain rfl := Option.some.inj live_eq
  exact absurd same.length_eq (by decide)

/-- Without the delete in between, the second scan serves the rows that the first one stored. -/
theorem serves_stored : (Run.after (perform {}) (opened 1 opening false)
    (slowScan ++ step 0 :: fastScan)).ServesFresh := by
  apply servesFresh_of_undisturbed
  have idle {system : ProviderSystem table} (free : system.refresh = none) : system.Settled := by
    intro refresh refresh_eq
    rw [free] at refresh_eq
    cases refresh_eq
  have missing : ¬(none : Option (List Int)).isSome := by decide
  exact ⟨trivial, trivial, trivial, trivial, trivial, trivial, trivial,
    fun _ found => absurd found missing, ⟨idle rfl, rfl⟩, trivial, trivial, trivial,
    fun _ _ => ⟨idle rfl, rfl⟩, trivial⟩

end SlowScan

end ProviderSystem

end IcefallDB
