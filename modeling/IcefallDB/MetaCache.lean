import IcefallDB.Lib.Lru
import IcefallDB.Table.SnapshotReads
import Mathlib

/-!
# The cache of sidecars

A process keeps the sidecars that it has read under their paths, for all its readers and for the
writers that build checkpoints.  Nothing takes an entry out when the table changes: sidecars are written
once, under names that are not given out again.  So a hit is what the file holds as long as it is there,
in every interleaving of the threads of the process with what is done to the table.
-/

namespace IcefallDB

open RowCounts

/-- The cache of sidecars by path.  A capacity of zero disables it. -/
abbrev MetaCache : Type :=
  Lru String RowGroupMeta

namespace MetaCache

/-- What a thread gets; it promotes the entry later, under a lock of its own. -/
def get (cache : MetaCache) (path : String) : Option RowGroupMeta :=
  cache.lookup path

/-- Whatever the threads do, a cache holds no more sidecars than its capacity, and one that was put or
hit stays while fewer other paths than that are used since. -/
theorem get_of_recent {capacity : Nat} {earlier later : List (Lru.Step String RowGroupMeta)}
    {step : Lru.Step String RowGroupMeta} {path : String} {sidecar : RowGroupMeta} {cache : MetaCache}
    (uses : step.Uses ((Lru.new capacity).run earlier) path sidecar)
    (run : (((Lru.new capacity).run earlier).perform step).run later = cache)
    (spares : ∀ step ∈ later, step.Spares path)
    (fewer : ((later.filterMap Lru.Step.key).filter fun other => other ≠ path).dedup.length <
      capacity) :
    get cache path = some sidecar ∧ cache.order.Nodup ∧ cache.order.length ≤ capacity ∧
      ∀ other, other ∈ cache.order ↔ (get cache other).isSome := by
  have started : (Lru.new capacity : MetaCache).WellFormed := Lru.wellFormed_new capacity
  have reached := started.run earlier
  have capacity_eq := Lru.capacity_run started earlier
  subst run
  constructor
  · exact Lru.lookup_run_of_uses reached uses spares (capacity_eq ▸ fewer)
  · have performed := reached.perform step
    have wellFormed := performed.run later
    refine ⟨wellFormed.nodup, ?_, fun other => ?_⟩
    · have bounded := wellFormed.bounded
      rw [Lru.capacity_run performed] at bounded
      exact bounded.trans_eq ((Lru.capacity_perform reached step).trans capacity_eq)
    · rw [wellFormed.mem_order, get, Lru.lookup, AList.lookup_isSome]

/-- The sidecar of no rows. -/
def noRows : RowGroupMeta where
  rowGroup := "a"
  schemaId := 1
  rows := 0
  columns := ∅
  columnOffsets := none
  sort := none
  rowIds := []
  checksum := ""
  metaChecksum := ""

/-- Of two paths the one that is hit is kept when a third one is put. -/
theorem get_of_promoted : ∃ cache : MetaCache,
    (((Lru.new 2).run [.put "a" noRows, .put "b" noRows]).perform (.promote "a")).run
        [.put "c" noRows] = cache ∧
      get cache "a" = some noRows ∧ cache.order.Nodup ∧ cache.order.length ≤ 2 ∧
        ∀ other, other ∈ cache.order ↔ (get cache other).isSome := by
  have hit : (Lru.Step.promote "a").Uses
      ((Lru.new 2).run [.put "a" noRows, .put "b" noRows] : MetaCache) "a" noRows := ⟨rfl, rfl⟩
  refine ⟨_, rfl, get_of_recent hit rfl ?_ (by simp [Lru.Step.key])⟩
  intro step member
  obtain rfl := List.mem_singleton.mp member
  exact (by decide : "c" ≠ "a")

end MetaCache

/-- A process with its cache, and the directory of a table that others work on as well. -/
structure CachedTable (R : Type) where
  staging : List Compactor.StagingState
  storage : TableStorage R
  /-- The row groups that the process has seen. -/
  seen : List RecordedCounts
  /-- The sidecars that threads have read and verified. -/
  reads : List (String × RowGroupMeta)
  cache : MetaCache

namespace CachedTable

variable {R : Type}

/-- A new table, and a process that has done nothing yet. -/
def created (storage : TableStorage R) (capacity : Nat) : CachedTable R :=
  { staging := [], storage, seen := [], reads := [], cache := Lru.new capacity }

/-- A step of the process or of anyone else. -/
inductive Step : CachedTable R → CachedTable R → Prop
  /-- Somebody works on the table.  The names of row groups that the process has seen are not given to
  new ones. -/
  | table {system : CachedTable R} {staging : List Compactor.StagingState} {storage : TableStorage R}
      (step : RowCounts.Step (fun _ => True) system.seen (system.staging, system.storage)
        (staging, storage)) :
      Step system { system with staging, storage }
  /-- A reader loads the live manifest. -/
  | refresh {system : CachedTable R} {live : Manifest} {storage : TableStorage R}
      (run : (Catalog.refresh Except.ok).Ends system.storage (some live) storage) :
      Step system { system with storage, seen := live.recordedCounts :: system.seen }
  /-- A reader loads a manifest that is still there. -/
  | travel {system : CachedTable R} {sequence : Nat} {manifest : Manifest}
      (found : system.storage.manifests.lookup sequence = some manifest) :
      Step system { system with seen := manifest.recordedCounts :: system.seen }
  /-- A thread misses the sidecar of a row group, reads it and verifies it. -/
  | load {system : CachedTable R} {recorded : RecordedCounts} {files : String × String}
      {sidecar : RowGroupMeta} (seen : recorded ∈ system.seen) (member : files ∈ recorded.1)
      (found : system.storage.files.lookup files.2 = some (.sidecar sidecar))
      (verified : sidecar.verifyMetaChecksum = true) :
      Step system { system with reads := (files.2, sidecar) :: system.reads }
  /-- A thread puts what it has read into the cache, at any time after it has. -/
  | store {system : CachedTable R} {path : String} {sidecar : RowGroupMeta}
      (read : (path, sidecar) ∈ system.reads) :
      Step system { system with cache := system.cache.put path sidecar }
  /-- A thread promotes an entry that it has got, or that has been evicted since. -/
  | promote {system : CachedTable R} (path : String) :
      Step system { system with cache := system.cache.promote path }
  | clear {system : CachedTable R} : Step system { system with cache := system.cache.clear }

/-- Sidecars are what has been read under their names. -/
def Agrees (reads : List (String × RowGroupMeta)) : Validity R :=
  fun files _ sidecar => ∀ path known, (path, known) ∈ reads → files.2 = path → sidecar = known

/-- What has been read is what the files hold, if they are still there, and what is in the cache has
been read. -/
structure Coherent (system : CachedTable R) : Prop where
  counted : Counted (fun files rows sidecar => True ∧ Agrees system.reads files rows sidecar) nothing
    (system.seen ++ staged system.staging) system.storage
  seen : ∀ path sidecar, (path, sidecar) ∈ system.reads →
    ∃ recorded ∈ system.seen, ∃ files ∈ recorded.1, files.2 = path
  verified : ∀ path sidecar, (path, sidecar) ∈ system.reads → sidecar.verifyMetaChecksum = true
  wellFormed : system.cache.WellFormed
  cached : ∀ path sidecar, system.cache.lookup path = some sidecar → (path, sidecar) ∈ system.reads

variable {system next : CachedTable R}

theorem coherent_created {storage : TableStorage R} (unpublished : storage.manifests = ∅)
    (unlogged : storage.log = []) (capacity : Nat) : (created storage capacity).Coherent where
  counted := counted_of_empty unpublished unlogged
  seen := nofun
  verified := nofun
  wellFormed := Lru.wellFormed_new capacity
  cached path sidecar found := by cases found

/-- The names of what has been read are seen, so whatever is written under new names agrees. -/
theorem Coherent.keeps (coherent : system.Coherent) :
    Keeps (fun files rows sidecar => True ∧ Agrees system.reads files rows sidecar)
      (fun _ : TableAction R => True) system.seen := by
  apply (keeps_true _ _).and
  intro files rows sidecar unpinned path known read same
  obtain ⟨recorded, listed, pinned, member, rfl⟩ := coherent.seen path known read
  exact absurd same (unpinned recorded listed pinned member)

/-- A sidecar that is read is the one that every row group with its name was written with. -/
theorem agrees_load {listed : List RecordedCounts} {storage : TableStorage R}
    {reads : List (String × RowGroupMeta)} {path : String} {sidecar : RowGroupMeta}
    (counted : Counted (fun files rows sidecar => True ∧ Agrees reads files rows sidecar) nothing listed
      storage)
    (found : storage.files.lookup path = some (.sidecar sidecar)) :
    Counted (fun files rows other => True ∧ Agrees ((path, sidecar) :: reads) files rows other) nothing
      listed storage := by
  constructor
  · intro recorded tracked
    obtain ⟨kinds, foreign, each, beside⟩ := counted.parallel recorded tracked
    refine ⟨kinds, foreign, fun files member => ?_, beside⟩
    obtain ⟨rows, written, held, -, agrees⟩ := each files member
    refine ⟨rows, written, held, trivial, fun other known read same => ?_⟩
    rcases List.mem_cons.mp read with now | before
    · obtain ⟨rfl, rfl⟩ := Prod.mk.inj now
      exact (File.sidecar.inj (held.sidecar_eq _ (same ▸ found))).symm
    · exact agrees other known before same
  · exact counted.artifacts

theorem Coherent.step (coherent : system.Coherent) (step : Step system next) : next.Coherent := by
  have keeps := coherent.keeps
  obtain ⟨counted, seen, verified, wellFormed, cached⟩ := coherent
  have wider : ∀ (recorded : RecordedCounts) (path : String) (sidecar : RowGroupMeta),
      (path, sidecar) ∈ system.reads →
        ∃ known ∈ recorded :: system.seen, ∃ files ∈ known.1, files.2 = path := by
    intro recorded path sidecar read
    obtain ⟨known, listed, rest⟩ := seen path sidecar read
    exact ⟨known, List.mem_cons_of_mem recorded listed, rest⟩
  cases step with
  | table step => exact ⟨step.counted keeps counted, seen, verified, wellFormed, cached⟩
  | @refresh live storage run =>
      obtain ⟨refreshed, known⟩ := (safe_refresh counted).ends _ _ run
      exact ⟨refreshed.track (known live rfl), wider _, verified, wellFormed, cached⟩
  | travel found =>
      have tracked := counted.track (counted.parallel _ (.manifest found))
      exact ⟨tracked, wider _, verified, wellFormed, cached⟩
  | @load recorded files sidecar listed member found verifies =>
      refine ⟨agrees_load counted found, ?_, ?_, wellFormed, ?_⟩
      · intro path known read
        rcases List.mem_cons.mp read with now | before
        · obtain ⟨rfl, rfl⟩ := Prod.mk.inj now
          exact ⟨recorded, listed, files, member, rfl⟩
        · exact seen path known before
      · intro path known read
        rcases List.mem_cons.mp read with now | before
        · obtain ⟨rfl, rfl⟩ := Prod.mk.inj now
          exact verifies
        · exact verified path known before
      · exact fun path known found => List.mem_cons_of_mem _ (cached path known found)
  | @store path sidecar read =>
      refine ⟨counted, seen, verified, wellFormed.put path sidecar, fun other known found => ?_⟩
      rcases Lru.lookup_perform wellFormed (.put path sidecar) found with before | now
      · exact cached other known before
      · obtain ⟨rfl, rfl⟩ := Lru.Step.put.inj now
        exact read
  | promote path =>
      refine ⟨counted, seen, verified, wellFormed.promote path, fun other known found => ?_⟩
      rcases Lru.lookup_perform wellFormed (.promote path) found with before | now
      · exact cached other known before
      · cases now
  | clear =>
      refine ⟨counted, seen, verified, Lru.wellFormed_clear _, fun other known found => ?_⟩
      cases found

theorem coherent_of_run {storage : TableStorage R} {capacity : Nat}
    (unpublished : storage.manifests = ∅) (unlogged : storage.log = [])
    (run : Relation.ReflTransGen Step (created storage capacity) system) : system.Coherent := by
  induction run with
  | refl => exact coherent_created unpublished unlogged capacity
  | tail _ step ih => exact ih.step step

/-- In every interleaving, a hit is what a reader would get from the file, verified, as long as the file
is there. -/
theorem readVerifiedMeta_of_hit {storage : TableStorage R} {capacity : Nat}
    (unpublished : storage.manifests = ∅) (unlogged : storage.log = [])
    (run : Relation.ReflTransGen Step (created storage capacity) system) {path : String}
    {sidecar : RowGroupMeta} (hit : MetaCache.get system.cache path = some sidecar) (snapshot : Nat) :
    Reader.readVerifiedMeta snapshot path system.storage = ([], .ok sidecar) ∨
      system.storage.files.lookup path = none ∧
        Reader.readVerifiedMeta snapshot path system.storage =
          ([], .error (.missingRowGroupFile snapshot path)) := by
  obtain ⟨counted, seen, verified, -, cached⟩ := coherent_of_run unpublished unlogged run
  have read := cached path sidecar hit
  obtain ⟨recorded, listed, files, member, rfl⟩ := seen path sidecar read
  have parallel := counted.parallel recorded (.staged (List.mem_append_left _ listed))
  obtain ⟨rows, written, held, -, agrees⟩ := parallel.held files member
  obtain rfl := agrees files.2 sidecar read rfl
  exact readVerifiedMeta_of_held snapshot held.sidecar_eq (verified files.2 written read)

private def isVerifiedSidecar : Option (File Int) → Bool
  | some (.sidecar sidecar) => sidecar.verifyMetaChecksum
  | _ => false

/-- The sidecar of the first append is there and verified. -/
private theorem exists_sidecar_appended : ∃ sidecar : RowGroupMeta,
    ((Catalog.refresh Except.ok).final appended).files.lookup appendedRowGroup.entry.metaFile =
      some (.sidecar sidecar) ∧ sidecar.verifyMetaChecksum = true := by
  have verified : isVerifiedSidecar (((Catalog.refresh Except.ok).final appended).files.lookup
      appendedRowGroup.entry.metaFile) = true := by
    decide +kernel
  generalize ((Catalog.refresh Except.ok).final appended).files.lookup _ = file at *
  unfold isVerifiedSidecar at verified
  split at verified
  · exact ⟨_, rfl, verified⟩
  · cases verified

/-- A reader loads a table after its first action, reads a sidecar and puts it into the cache. -/
theorem stored_of_first {start loaded healed : TableStorage R} {live : Manifest}
    {files : String × String} {sidecar : RowGroupMeta} (capacity : Nat)
    (acts : RowCounts.Step (fun _ => True) [] ([], start) ([], loaded))
    (loads : (Catalog.refresh Except.ok).Ends loaded (some live) healed)
    (member : files ∈ live.recordedCounts.1)
    (found : healed.files.lookup files.2 = some (.sidecar sidecar))
    (verified : sidecar.verifyMetaChecksum = true) :
    Relation.ReflTransGen Step (created start capacity)
      { staging := [], storage := healed, seen := [live.recordedCounts], reads := [(files.2, sidecar)]
        cache := (Lru.new capacity).put files.2 sidecar } := by
  have first : Relation.ReflTransGen Step (created start capacity)
      { created start capacity with storage := loaded } :=
    .single (.table acts)
  have second := first.tail (.refresh loads)
  have third := second.tail (.load List.mem_cons_self member found verified)
  exact third.tail (.store List.mem_cons_self)

theorem readVerifiedMeta_of_stored : ∃ (system : CachedTable Int) (path : String)
    (sidecar : RowGroupMeta), MetaCache.get system.cache path = some sidecar ∧
      (Reader.readVerifiedMeta 1 path system.storage = ([], .ok sidecar) ∨
        system.storage.files.lookup path = none ∧
          Reader.readVerifiedMeta 1 path system.storage =
            ([], .error (.missingRowGroupFile 1 path))) := by
  obtain ⟨live, loads, listed⟩ := exists_loaded_appended
  obtain ⟨sidecar, found, verified⟩ := exists_sidecar_appended
  have member : appendedRowGroup.entry.files ∈ live.recordedCounts.1 := by
    rw [Manifest.recordedCounts, listed]
    exact List.mem_cons_self
  have run := stored_of_first 1 (step_appended trivial) loads member found verified
  have recent := Lru.recent_put (Lru.wellFormed_new 1) one_ne_zero appendedRowGroup.entry.metaFile
    sidecar []
  have read := readVerifiedMeta_of_hit rfl rfl run recent.kept.1 1
  exact ⟨{ staging := [], storage := _, seen := _, reads := _, cache := _ }, _, sidecar,
    recent.kept.1, read⟩

end CachedTable

end IcefallDB
