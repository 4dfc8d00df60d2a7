import IcefallDB.Lib.Permits
import IcefallDB.Lib.Run
import IcefallDB.Storage.Path
import Mathlib

/-!
# Exclusive locks

A call of `lock_exclusive` counts itself, gets the semaphore of its path from the storage's registry,
waits for the permit, and on a local storage opens the lock file and locks it.  Calls of any number of
storages take these steps in any order.  The permit keeps the guards of one storage apart, and the
locked file those of all local storages over it, whatever process they belong to, as long as nobody
deletes the lock file.
-/

namespace IcefallDB

/-- Where a call of `lock_exclusive` is, and then its guard. -/
inductive LockPhase
  /-- The call has counted itself and not yet asked for the semaphore. -/
  | counted (callCount : Nat)
  | waiting
  /-- The call has the permit; its lock file is not open. -/
  | permitted
  | opened (inode : Nat)
  /-- The call has returned its guard, which on a local storage has the file locked. -/
  | guard (inode : Option Nat)
  /-- The guard is being dropped: its file is unlocked, its permit not yet given back. -/
  | unlocked
  deriving DecidableEq

/-- What a call in this phase has of its semaphore. -/
def LockPhase.holds? : LockPhase → Option Bool
  | .counted _ => none
  | .waiting => some false
  | .permitted => some true
  | .opened _ => some true
  | .guard _ => some true
  | .unlocked => some true

/-- The open lock file of a call or guard in this phase. -/
def LockPhase.inode? : LockPhase → Option Nat
  | .opened inode => some inode
  | .guard inode => inode
  | _ => none

structure LockCall where
  /-- The storage that the call was made on. -/
  store : Nat
  /-- The cleaned path. -/
  path : String
  phase : LockPhase
  deriving DecidableEq

/-- The locks of one `MemoryStorage`, or of one `LocalStorage` with its root. -/
structure LockStore where
  localRoot : Option String
  permits : Permits String Nat
  lockCallCount : Nat

/-- Storages, the calls and guards of all of them, and the lock files. -/
structure Locks where
  stores : Nat → LockStore
  calls : AList fun _ : Nat => LockCall
  files : String → Option Nat
  /-- Calls that have an open file locked, by inode. -/
  flocks : Nat → Option Nat
  inodes : Nat

inductive LockEvent
  | enter (caller store : Nat) (raw : String)
  | register (caller : Nat)
  | acquire (caller : Nat)
  | openFile (caller : Nat)
  | tryLock (caller : Nat)
  /-- The time is up, or opening or locking the file fails. -/
  | giveUp (caller : Nat)
  | unlock (caller : Nat)
  | release (caller : Nat)
  /-- Somebody deletes a file. -/
  | unlink (full : String)
  /-- The process of a storage ends. -/
  | crash (store : Nat)

/-- `PathBuf::join` of a relative path. -/
def joinPath (root path : String) : String :=
  if root.toList.getLast? = some '/' then root ++ path else root ++ "/" ++ path

namespace Locks

/-- No calls, on storages with these roots. -/
def new (roots : Nat → Option String) : Locks where
  stores store := { localRoot := roots store, permits := Permits.new, lockCallCount := 0 }
  calls := ∅
  files := fun _ => none
  flocks := fun _ => none
  inodes := 0

/-- A storage's registry is changed. -/
def withPermits (locks : Locks) (store : Nat) (change : Permits String Nat → Permits String Nat) :
    Nat → LockStore :=
  Function.update locks.stores store
    { locks.stores store with permits := change (locks.stores store).permits }

def shouldPrune (callCount : Nat) (permits : Permits String Nat) : Bool :=
  callCount % 100 == 0 || decide (permits.semaphores.entries.length > 1000)

def step (locks : Locks) : LockEvent → Locks
  | .enter caller store raw =>
    match locks.calls.lookup caller, validatePath raw with
    | none, .ok path =>
      let callCount := (locks.stores store).lockCallCount
      { locks with
        stores := Function.update locks.stores store
          { locks.stores store with lockCallCount := callCount + 1 }
        calls := locks.calls.insert caller { store, path, phase := .counted callCount } }
    | _, _ => locks
  | .register caller =>
    match locks.calls.lookup caller with
    | some ⟨store, path, .counted callCount⟩ =>
      { locks with
        stores := locks.withPermits store fun permits =>
          permits.request caller path (shouldPrune callCount permits)
        calls := locks.calls.insert caller { store, path, phase := .waiting } }
    | _ => locks
  | .acquire caller =>
    match locks.calls.lookup caller with
    | some ⟨store, path, .waiting⟩ =>
      if ((locks.stores store).permits.acquire caller).standing caller = some (path, true) then
        { locks with
          stores := locks.withPermits store fun permits => permits.acquire caller
          calls := locks.calls.insert caller
            { store, path, phase := if (locks.stores store).localRoot.isSome then .permitted
                else .guard none } }
      else locks
    | _ => locks
  | .openFile caller =>
    match locks.calls.lookup caller with
    | some ⟨store, path, .permitted⟩ =>
      match (locks.stores store).localRoot with
      | none => locks
      | some root =>
        match locks.files (joinPath root path) with
        | some inode =>
          { locks with calls := locks.calls.insert caller { store, path, phase := .opened inode } }
        | none =>
          { locks with
            calls := locks.calls.insert caller { store, path, phase := .opened locks.inodes }
            files := Function.update locks.files (joinPath root path) (some locks.inodes)
            inodes := locks.inodes + 1 }
    | _ => locks
  | .tryLock caller =>
    match locks.calls.lookup caller with
    | some ⟨store, path, .opened inode⟩ =>
      match locks.flocks inode with
      | some _ => locks
      | none =>
        { locks with
          calls := locks.calls.insert caller { store, path, phase := .guard (some inode) }
          flocks := Function.update locks.flocks inode (some caller) }
    | _ => locks
  | .giveUp caller =>
    match locks.calls.lookup caller with
    | none => locks
    | some ⟨_, _, .guard _⟩ => locks
    | some ⟨_, _, .unlocked⟩ => locks
    | some ⟨store, _, _⟩ =>
      { locks with
        stores := locks.withPermits store fun permits => permits.release caller
        calls := locks.calls.erase caller }
  | .unlock caller =>
    match locks.calls.lookup caller with
    | some ⟨store, path, .guard inode⟩ =>
      { locks with
        calls := locks.calls.insert caller { store, path, phase := .unlocked }
        flocks := inode.elim locks.flocks fun inode => Function.update locks.flocks inode none }
    | _ => locks
  | .release caller =>
    match locks.calls.lookup caller with
    | some ⟨store, _, .unlocked⟩ =>
      { locks with
        stores := locks.withPermits store fun permits => permits.release caller
        calls := locks.calls.erase caller }
    | _ => locks
  | .unlink full => { locks with files := Function.update locks.files full none }
  | .crash store =>
    { locks with
      stores := Function.update locks.stores store
        { locks.stores store with permits := Permits.new, lockCallCount := 0 }
      calls := locks.calls.retain fun _ call => call.store != store
      flocks := fun inode => (locks.flocks inode).filter fun caller =>
        (locks.calls.lookup caller).any fun call => call.store != store }

/-! ### The invariant -/

/-- What a call has of the semaphores of a storage. -/
def standingOf : Option LockCall → Nat → Option (String × Bool)
  | none, _ => none
  | some call, store =>
    if call.store = store then call.phase.holds?.map fun holds => (call.path, holds) else none

/-- A phase is one of the phases of a storage of its kind. -/
def Fits (localRoot : Option String) : LockPhase → Prop
  | .counted _ => True
  | .waiting => True
  | .permitted => localRoot.isSome
  | .opened _ => localRoot.isSome
  | .guard inode => inode.isSome = localRoot.isSome
  | .unlocked => True

/-- A caller's tickets and file locks are those of its phase. -/
structure Agrees (locks : Locks) (caller : Nat) : Prop where
  standing : ∀ store, (locks.stores store).permits.standing caller =
    standingOf (locks.calls.lookup caller) store
  flock : ∀ inode, locks.flocks inode = some caller ↔
    ∃ call, locks.calls.lookup caller = some call ∧ call.phase = .guard (some inode)
  fits : ∀ call, locks.calls.lookup caller = some call →
    Fits (locks.stores call.store).localRoot call.phase

structure WellFormed (locks : Locks) : Prop where
  permits : ∀ store, (locks.stores store).permits.WellFormed
  agrees : ∀ caller, locks.Agrees caller

variable (roots : Nat → Option String)

theorem wellFormed_new : (new roots).WellFormed := by
  refine ⟨fun store => Permits.wellFormed_new, fun caller => ⟨fun store => rfl, fun inode => ?_, ?_⟩⟩
  · exact iff_of_false nofun fun ⟨call, found, _⟩ => by cases found
  · intro call found
    cases found

section

variable {locks : Locks}

variable {store : Nat}

theorem standingOf_some_of_ne {call : LockCall} (other : call.store ≠ store) :
    standingOf (some call) store = none :=
  if_neg other

theorem standingOf_some (call : LockCall) :
    standingOf (some call) call.store = call.phase.holds?.map fun holds => (call.path, holds) :=
  if_pos rfl

/-- A caller's file lock does not change if its phase has none before and after. -/
theorem WellFormed.not_flocked (wellFormed : locks.WellFormed) {caller : Nat} {call : LockCall}
    (found : locks.calls.lookup caller = some call)
    (idle : ∀ inode, call.phase ≠ .guard (some inode)) (inode : Nat) :
    locks.flocks inode ≠ some caller := by
  intro locked
  obtain ⟨own, there, phase⟩ := ((wellFormed.agrees caller).flock inode).mp locked
  rw [found] at there
  obtain rfl := Option.some.inj there
  exact idle inode phase

/-- What a change of one storage keeps, no storage loses. -/
theorem field_update {α : Type} (field : LockStore → α) {other : Nat} {changed : LockStore}
    (same : field changed = field (locks.stores store)) :
    field (Function.update locks.stores store changed other) = field (locks.stores other) := by
  rw [Function.update_apply]
  split
  · rename_i own_store
    rw [own_store, same]
  · rfl

theorem localRoot_withPermits (store other : Nat)
    (change : Permits String Nat → Permits String Nat) :
    (locks.withPermits store change other).localRoot = (locks.stores other).localRoot :=
  field_update LockStore.localRoot rfl

theorem permits_withPermits (store other : Nat)
    (change : Permits String Nat → Permits String Nat) :
    (locks.withPermits store change other).permits =
      if other = store then change (locks.stores store).permits
      else (locks.stores other).permits := by
  rw [withPermits, Function.update_apply]
  split <;> rfl

theorem withPermits_id (store : Nat) : locks.withPermits store id = locks.stores :=
  Function.update_eq_self ..

/-- A caller's state changes and the others' stay. -/
theorem WellFormed.of_caller (wellFormed : locks.WellFormed) {after : Locks} (caller : Nat)
    (roots : ∀ store, (after.stores store).localRoot = (locks.stores store).localRoot)
    (permits : ∀ store, (after.stores store).permits.WellFormed)
    (frame : ∀ store other, other ≠ caller →
      (after.stores store).permits.standing other = (locks.stores store).permits.standing other)
    (calls : ∀ other, other ≠ caller → after.calls.lookup other = locks.calls.lookup other)
    (flocks : ∀ inode other, other ≠ caller →
      (after.flocks inode = some other ↔ locks.flocks inode = some other))
    (own : after.Agrees caller) : after.WellFormed := by
  refine ⟨permits, fun other => ?_⟩
  by_cases same : other = caller
  · exact same ▸ own
  · have before := wellFormed.agrees other
    refine ⟨fun store => ?_, fun inode => ?_, fun call found => ?_⟩
    · rw [calls other same, frame store other same]
      exact before.standing store
    · rw [flocks inode other same, calls other same]
      exact before.flock inode
    · rw [calls other same] at found
      rw [roots]
      exact before.fits call found

variable {path : String} {phase : LockPhase}

/-- A call proceeds to another phase. -/
theorem WellFormed.goto (wellFormed : locks.WellFormed) {caller : Nat} {phase' : LockPhase}
    (found : locks.calls.lookup caller = some ⟨store, path, phase⟩) {after : Locks}
    (change : Permits String Nat → Permits String Nat)
    (stores : after.stores = locks.withPermits store change)
    (calls : after.calls = locks.calls.insert caller ⟨store, path, phase'⟩)
    (keeps : (change (locks.stores store).permits).WellFormed)
    (frame : ∀ other, other ≠ caller → (change (locks.stores store).permits).standing other =
      (locks.stores store).permits.standing other)
    (own : (change (locks.stores store).permits).standing caller =
      phase'.holds?.map fun holds => (path, holds))
    (fits : Fits (locks.stores store).localRoot phase')
    (flocks : ∀ inode other, other ≠ caller →
      (after.flocks inode = some other ↔ locks.flocks inode = some other))
    (flock : ∀ inode, after.flocks inode = some caller ↔ phase' = .guard (some inode)) :
    after.WellFormed := by
  have mine : after.calls.lookup caller = some ⟨store, path, phase'⟩ := by
    rw [calls, AList.lookup_insert]
  refine wellFormed.of_caller caller (fun other => ?_) (fun other => ?_)
    (fun at_store other same => ?_) (fun other same => by rw [calls, AList.lookup_insert_ne same])
    flocks ⟨fun at_store => ?_, fun inode => ?_, fun call there => ?_⟩
  · rw [stores, localRoot_withPermits]
  · rw [stores, permits_withPermits]
    split
    · exact keeps
    · exact wellFormed.permits other
  · rw [stores, permits_withPermits]
    split
    · rename_i own_store
      rw [own_store, frame other same]
    · rfl
  · rw [mine, stores, permits_withPermits]
    split
    · rename_i own_store
      rw [own_store, own]
      exact (standingOf_some ⟨store, path, phase'⟩).symm
    · rename_i other_store
      have before := (wellFormed.agrees caller).standing at_store
      rw [found, standingOf_some_of_ne (Ne.symm other_store)] at before
      rw [before]
      exact (standingOf_some_of_ne (Ne.symm other_store)).symm
  · rw [flock inode, mine]
    constructor
    · exact fun phase_eq => ⟨_, rfl, phase_eq⟩
    · rintro ⟨call, there, phase_eq⟩
      obtain rfl := Option.some.inj there
      exact phase_eq
  · rw [mine] at there
    obtain rfl := Option.some.inj there
    rw [stores, localRoot_withPermits]
    exact fits

/-- A call ends, or its guard does. -/
theorem WellFormed.leave (wellFormed : locks.WellFormed) {caller : Nat}
    (found : locks.calls.lookup caller = some ⟨store, path, phase⟩)
    (idle : ∀ inode, phase ≠ .guard (some inode)) :
    WellFormed { locks with
      stores := locks.withPermits store fun permits => permits.release caller
      calls := locks.calls.erase caller } := by
  refine wellFormed.of_caller caller (fun other => localRoot_withPermits ..) (fun other => ?_)
    (fun at_store other same => ?_) (fun other same => AList.lookup_erase_ne same)
    (fun _ _ _ => Iff.rfl) ⟨fun at_store => ?_, fun inode => ?_, fun call there => ?_⟩
  · dsimp only
    rw [permits_withPermits]
    split
    · exact (wellFormed.permits store).release caller
    · exact wellFormed.permits other
  · dsimp only
    rw [permits_withPermits]
    split
    · rename_i own_store
      rw [own_store, Permits.standing_release_of_ne same]
    · rfl
  · dsimp only
    rw [AList.lookup_erase, permits_withPermits]
    split
    · exact Permits.standing_release _ caller
    · rename_i other_store
      have before := (wellFormed.agrees caller).standing at_store
      rw [found, standingOf_some_of_ne (Ne.symm other_store)] at before
      exact before
  · refine iff_of_false (wellFormed.not_flocked found idle inode) ?_
    rintro ⟨call, there, -⟩
    rw [AList.lookup_erase] at there
    cases there
  · rw [AList.lookup_erase] at there
    cases there

/-- What a caller has in the registry of its call's storage. -/
theorem WellFormed.standing (wellFormed : locks.WellFormed) {caller : Nat}
    (found : locks.calls.lookup caller = some ⟨store, path, phase⟩) :
    (locks.stores store).permits.standing caller = phase.holds?.map fun holds => (path, holds) := by
  rw [(wellFormed.agrees caller).standing store, found]
  exact standingOf_some ⟨store, path, phase⟩

/-! ### One step -/

theorem WellFormed.enter (wellFormed : locks.WellFormed) (caller store : Nat) (raw : String) :
    (locks.step (.enter caller store raw)).WellFormed := by
  rw [step]
  split
  · rename_i path fresh _
    have permits (other : Nat) : (Function.update locks.stores store
        { locks.stores store with lockCallCount := (locks.stores store).lockCallCount + 1 }
          other).permits = (locks.stores other).permits := field_update LockStore.permits rfl
    have before := wellFormed.agrees caller
    refine wellFormed.of_caller caller (fun other => field_update LockStore.localRoot rfl)
      (fun other => permits other ▸ wellFormed.permits other)
      (fun other user _ => congrArg (Permits.standing · user) (permits other))
      (fun other same => AList.lookup_insert_ne same) (fun _ _ _ => Iff.rfl) ⟨fun at_store => ?_,
        fun inode => ?_, fun call found => ?_⟩
    · dsimp only
      rw [AList.lookup_insert, permits at_store, before.standing, fresh]
      exact (ite_self none).symm
    · refine iff_of_false (fun locked => ?_) ?_
      · obtain ⟨call, found, -⟩ := (before.flock inode).mp locked
        rw [fresh] at found
        cases found
      · rintro ⟨call, found, phase⟩
        rw [AList.lookup_insert] at found
        obtain rfl := Option.some.inj found
        cases phase
    · rw [AList.lookup_insert] at found
      obtain rfl := Option.some.inj found
      trivial
  · exact wellFormed

theorem WellFormed.register (wellFormed : locks.WellFormed) (caller : Nat) :
    (locks.step (.register caller)).WellFormed := by
  rw [step]
  split
  · rename_i store path callCount found
    have idle : (locks.stores store).permits.standing caller = none := wellFormed.standing found
    have fresh : (locks.stores store).permits.tickets.lookup caller = none :=
      Option.map_eq_none_iff.mp idle
    exact wellFormed.goto found
      (fun permits => permits.request caller path (shouldPrune callCount permits)) rfl rfl
      ((wellFormed.permits store).request fresh path _)
      (fun other same => Permits.standing_request_of_ne same path _)
      (Permits.standing_request _ caller path _) trivial (fun _ _ _ => Iff.rfl)
      fun inode => iff_of_false (wellFormed.not_flocked found nofun inode) nofun
  · exact wellFormed

theorem WellFormed.acquire (wellFormed : locks.WellFormed) (caller : Nat) :
    (locks.step (.acquire caller)).WellFormed := by
  rw [step]
  split
  · rename_i store path found
    split
    · rename_i granted
      refine wellFormed.goto found (fun permits => permits.acquire caller) rfl rfl
        ((wellFormed.permits store).acquire caller)
        (fun other same => Permits.standing_acquire_of_ne same) ?_ ?_ (fun _ _ _ => Iff.rfl)
        fun inode => iff_of_false (wellFormed.not_flocked found (by rintro _ ⟨⟩) inode) ?_
      · rw [granted]
        split <;> rfl
      · cases root : (locks.stores store).localRoot with
        | none => rfl
        | some root => rfl
      · split <;> rintro ⟨⟩
    · exact wellFormed
  · exact wellFormed

theorem WellFormed.openFile (wellFormed : locks.WellFormed) (caller : Nat) :
    (locks.step (.openFile caller)).WellFormed := by
  rw [step]
  split
  · rename_i store path found
    split
    · exact wellFormed
    · rename_i root rooted
      have opens (inode : Nat) (files : String → Option Nat) (inodes : Nat) :
          WellFormed { locks with
            calls := locks.calls.insert caller { store, path, phase := .opened inode }
            files
            inodes } :=
        wellFormed.goto found id (withPermits_id store).symm rfl (wellFormed.permits store)
          (fun _ _ => rfl) ((wellFormed.standing found).trans rfl) (rooted ▸ rfl)
          (fun _ _ _ => Iff.rfl) fun other => iff_of_false (wellFormed.not_flocked found nofun other) nofun
      split
      · exact opens _ _ _
      · exact opens _ _ _
  · exact wellFormed

theorem WellFormed.tryLock (wellFormed : locks.WellFormed) (caller : Nat) :
    (locks.step (.tryLock caller)).WellFormed := by
  rw [step]
  split
  · rename_i store path inode found
    split
    · exact wellFormed
    · rename_i free
      have rooted : (locks.stores store).localRoot.isSome :=
        (wellFormed.agrees caller).fits _ found
      refine wellFormed.goto found id (withPermits_id store).symm rfl (wellFormed.permits store)
        (fun _ _ => rfl) ((wellFormed.standing found).trans rfl) rooted.symm
        (fun other user same => ?_) fun other => ?_
      · dsimp only
        rw [Function.update_apply]
        split
        · rename_i same_inode
          rw [same_inode, free]
          exact iff_of_false (fun mine => same (Option.some.inj mine).symm) nofun
        · rfl
      · dsimp only
        rw [Function.update_apply]
        split
        · rename_i same_inode
          rw [same_inode]
          exact iff_of_true rfl rfl
        · rename_i other_inode
          refine iff_of_false (wellFormed.not_flocked found nofun other) fun same => ?_
          exact other_inode (Option.some.inj (LockPhase.guard.inj same)).symm
  · exact wellFormed

theorem WellFormed.giveUp (wellFormed : locks.WellFormed) (caller : Nat) :
    (locks.step (.giveUp caller)).WellFormed := by
  rw [step]
  split
  · exact wellFormed
  · exact wellFormed
  · exact wellFormed
  · rename_i store path phase guarded _ found
    exact wellFormed.leave found fun inode same => guarded _ same

theorem WellFormed.unlock (wellFormed : locks.WellFormed) (caller : Nat) :
    (locks.step (.unlock caller)).WellFormed := by
  rw [step]
  split
  · rename_i store path inode found
    have held (other : Nat) : locks.flocks other = some caller ↔ inode = some other := by
      rw [(wellFormed.agrees caller).flock other, found]
      constructor
      · rintro ⟨call, there, phase⟩
        obtain rfl := Option.some.inj there
        exact LockPhase.guard.inj phase
      · rintro rfl
        exact ⟨_, rfl, rfl⟩
    refine wellFormed.goto found id (withPermits_id store).symm rfl (wellFormed.permits store)
      (fun _ _ => rfl) ((wellFormed.standing found).trans rfl) trivial (fun other user same => ?_)
      fun other => iff_of_false (fun still => ?_) nofun
    · cases inode with
      | none => rfl
      | some inode =>
          change Function.update locks.flocks inode none other = _ ↔ _
          rw [Function.update_apply]
          split
          · rename_i same_inode
            rw [same_inode, (held inode).mpr rfl]
            exact iff_of_false nofun fun mine => same (Option.some.inj mine).symm
          · rfl
    · cases inode with
      | none => cases (held other).mp still
      | some inode =>
          change Function.update locks.flocks inode none other = _ at still
          rw [Function.update_apply] at still
          split at still
          · cases still
          · rename_i other_inode
            exact other_inode (Option.some.inj ((held other).mp still)).symm
  · exact wellFormed

theorem WellFormed.release (wellFormed : locks.WellFormed) (caller : Nat) :
    (locks.step (.release caller)).WellFormed := by
  rw [step]
  split
  · rename_i store path found
    exact wellFormed.leave found nofun
  · exact wellFormed

theorem WellFormed.crash (wellFormed : locks.WellFormed) (store : Nat) :
    (locks.step (.crash store)).WellFormed := by
  have kept {caller : Nat} {call : LockCall} :
      (locks.step (.crash store)).calls.lookup caller = some call ↔
        locks.calls.lookup caller = some call ∧ call.store ≠ store := by
    rw [step, AList.lookup_retain_eq_some, bne_iff_ne]
  have at_store (other : Nat) : (locks.step (.crash store)).stores other =
      if other = store then { locks.stores store with permits := Permits.new, lockCallCount := 0 }
      else locks.stores other := Function.update_apply ..
  constructor
  · intro other
    rw [at_store]
    split
    · exact Permits.wellFormed_new
    · exact wellFormed.permits other
  · intro caller
    have before := wellFormed.agrees caller
    refine ⟨fun other => ?_, fun inode => ?_, fun call found => ?_⟩
    · have expected : standingOf ((locks.step (.crash store)).calls.lookup caller) other =
          if other = store then none else standingOf (locks.calls.lookup caller) other := by
        cases found : (locks.step (.crash store)).calls.lookup caller with
        | some call =>
            obtain ⟨there, stays⟩ := kept.mp found
            rw [there]
            split
            · rename_i same
              exact standingOf_some_of_ne (same ▸ stays)
            · rfl
        | none =>
            split
            · rfl
            · rename_i another
              cases there : locks.calls.lookup caller with
              | none => rfl
              | some call =>
                  refine (standingOf_some_of_ne fun same => ?_).symm
                  rw [kept.mpr ⟨there, same ▸ another⟩] at found
                  cases found
      rw [expected, at_store]
      split
      · rfl
      · exact before.standing other
    · simp only [kept]
      refine (Option.filter_eq_some_iff).trans ⟨?_, ?_⟩
      · rintro ⟨locked, stays⟩
        obtain ⟨call, found, phase⟩ := (before.flock inode).mp locked
        rw [found] at stays
        exact ⟨call, ⟨found, bne_iff_ne.mp stays⟩, phase⟩
      · rintro ⟨call, ⟨found, stays⟩, phase⟩
        refine ⟨(before.flock inode).mpr ⟨call, found, phase⟩, ?_⟩
        rw [found]
        exact bne_iff_ne.mpr stays
    · obtain ⟨there, stays⟩ := kept.mp found
      rw [at_store, if_neg stays]
      exact before.fits call there

/-- Every step keeps the invariant. -/
theorem WellFormed.step (wellFormed : locks.WellFormed) (event : LockEvent) :
    (locks.step event).WellFormed := by
  cases event with
  | enter caller store raw => exact wellFormed.enter caller store raw
  | register caller => exact wellFormed.register caller
  | acquire caller => exact wellFormed.acquire caller
  | openFile caller => exact wellFormed.openFile caller
  | tryLock caller => exact wellFormed.tryLock caller
  | giveUp caller => exact wellFormed.giveUp caller
  | unlock caller => exact wellFormed.unlock caller
  | release caller => exact wellFormed.release caller
  | unlink full =>
      exact ⟨wellFormed.permits, fun caller =>
        ⟨(wellFormed.agrees caller).standing, (wellFormed.agrees caller).flock,
          (wellFormed.agrees caller).fits⟩⟩
  | crash store => exact wellFormed.crash store

/-- The invariant of every run. -/
theorem wellFormed_after (events : List LockEvent) :
    (Run.after step (new roots) events).WellFormed := by
  have initial := wellFormed_new roots
  generalize new roots = start at initial
  induction events generalizing start with
  | nil => exact initial
  | cons event events ih => exact ih _ (initial.step event)

/-! ### Lock files -/

theorem localRoot_step (event : LockEvent) (store : Nat) :
    ((locks.step event).stores store).localRoot = (locks.stores store).localRoot := by
  cases event <;> rw [step] <;> (try split) <;> (try split) <;> (try split) <;>
    first
      | rfl
      | exact field_update LockStore.localRoot rfl

/-- A file is not replaced unless it is deleted. -/
theorem files_step {event : LockEvent} {full : String} {inode : Nat}
    (there : locks.files full = some inode) (kept : event ≠ .unlink full) :
    (locks.step event).files full = some inode := by
  cases event with
  | unlink other =>
      refine (Function.update_of_ne ?_ ..).trans there
      rintro rfl
      exact kept rfl
  | openFile caller =>
      rw [step]
      split
      · split
        · exact there
        · split
          · exact there
          · rename_i missing
            refine (Function.update_of_ne ?_ ..).trans there
            rintro rfl
            rw [there] at missing
            cases missing
      · exact there
  | _ =>
      rw [step]
      (repeat' split) <;> exact there

/-- The call already had the file open. -/
def HasOpen (locks : Locks) (caller : Nat) (call : LockCall) (inode : Nat) : Prop :=
  ∃ before, locks.calls.lookup caller = some before ∧ before.store = call.store ∧
    before.path = call.path ∧ before.phase.inode? = some inode

/-- A call's open file was open before, or the call has just opened it. -/
theorem opened_of_step {event : LockEvent} {caller inode : Nat} {call : LockCall}
    (found : (locks.step event).calls.lookup caller = some call)
    (opened : call.phase.inode? = some inode) :
    locks.HasOpen caller call inode ∨
      ∃ root, (locks.stores call.store).localRoot = some root ∧
        (locks.step event).files (joinPath root call.path) = some inode := by
  have same (there : locks.calls.lookup caller = some call) : locks.HasOpen caller call inode :=
    ⟨call, there, rfl, rfl, opened⟩
  have moved {own store : Nat} {path : String} {phase phase' : LockPhase}
      (before : locks.calls.lookup own = some ⟨store, path, phase⟩)
      (keeps : phase'.inode? = some inode → phase.inode? = some inode)
      (found : (locks.calls.insert own ⟨store, path, phase'⟩).lookup caller = some call) :
      locks.HasOpen caller call inode := by
    rcases AList.lookup_insert_eq_some.mp found with ⟨rfl, rfl⟩ | ⟨-, kept⟩
    · exact ⟨_, before, rfl, rfl, keeps opened⟩
    · exact same kept
  have left {own : Nat} (found : (locks.calls.erase own).lookup caller = some call) :
      locks.HasOpen caller call inode := by
    by_cases mine : caller = own
    · rw [mine, AList.lookup_erase] at found
      cases found
    · rw [AList.lookup_erase_ne mine] at found
      exact same found
  cases event with
  | enter own store raw =>
      rw [step] at found
      split at found
      · rcases AList.lookup_insert_eq_some.mp found with ⟨-, rfl⟩ | ⟨-, kept⟩
        · cases opened
        · exact .inl (same kept)
      · exact .inl (same found)
  | register own =>
      rw [step] at found
      split at found
      · rename_i before
        refine .inl (moved before ?_ found)
        rintro ⟨⟩
      · exact .inl (same found)
  | acquire own =>
      rw [step] at found
      split at found
      · rename_i before
        split at found
        · refine .inl (moved before ?_ found)
          split <;> rintro ⟨⟩
        · exact .inl (same found)
      · exact .inl (same found)
  | openFile own =>
      rw [step] at found ⊢
      split at found
      · rename_i store path before
        split at found
        · exact .inl (same found)
        · rename_i root rooted
          split at found
          · rename_i there
            rcases AList.lookup_insert_eq_some.mp found with ⟨rfl, rfl⟩ | ⟨-, kept⟩
            · refine .inr ⟨root, rooted, ?_⟩
              simp only [there]
              exact opened
            · exact .inl (same kept)
          · rcases AList.lookup_insert_eq_some.mp found with ⟨rfl, rfl⟩ | ⟨-, kept⟩
            · exact .inr ⟨root, rooted, (Function.update_self ..).trans opened⟩
            · exact .inl (same kept)
      · exact .inl (same found)
  | tryLock own =>
      rw [step] at found
      split at found
      · rename_i before
        split at found
        · exact .inl (same found)
        · refine .inl (moved before ?_ found)
          exact id
      · exact .inl (same found)
  | giveUp own =>
      rw [step] at found
      split at found
      · exact .inl (same found)
      · exact .inl (same found)
      · exact .inl (same found)
      · exact .inl (left found)
  | unlock own =>
      rw [step] at found
      split at found
      · rename_i before
        refine .inl (moved before ?_ found)
        rintro ⟨⟩
      · exact .inl (same found)
  | release own =>
      rw [step] at found
      split at found
      · exact .inl (left found)
      · exact .inl (same found)
  | unlink full => exact .inl (same found)
  | crash store => exact .inl (same (AList.lookup_retain_eq_some.mp found).1)

/-- The open files of a path are the one that is there. -/
def OneFile (full : String) (locks : Locks) : Prop :=
  ∀ caller call root inode, locks.calls.lookup caller = some call →
    (locks.stores call.store).localRoot = some root → joinPath root call.path = full →
      call.phase.inode? = some inode → locks.files full = some inode

theorem OneFile.step {full : String} (one : OneFile full locks) {event : LockEvent}
    (kept : event ≠ .unlink full) : OneFile full (locks.step event) := by
  intro caller call root inode found rooted resolved opened
  rw [localRoot_step] at rooted
  rcases opened_of_step found opened with ⟨before, there, store, path, was⟩ |
    ⟨root', rooted', now⟩
  · exact files_step (one caller before root inode there (store ▸ rooted) (path ▸ resolved) was) kept
  · rw [rooted] at rooted'
    obtain rfl := Option.some.inj rooted'
    exact resolved ▸ now

/-- In a run that never deletes a lock file, its open files are one. -/
theorem oneFile_after {full : String} {events : List LockEvent} (kept : .unlink full ∉ events) :
    OneFile full (Run.after Locks.step (new roots) events) := by
  have initial : OneFile full (new roots) := fun caller call _ _ found => by cases found
  generalize new roots = start at initial
  induction events generalizing start with
  | nil => exact initial
  | cons event events ih =>
      obtain ⟨other, later⟩ := not_or.mp (List.mem_cons.not.mp kept)
      exact ih later _ (initial.step (Ne.symm other))

/-! ### Exclusion -/

/-- Two guards of one storage and path are one. -/
theorem WellFormed.guard_unique (wellFormed : locks.WellFormed) {first second : Nat}
    {phase' : LockPhase} (left : locks.calls.lookup first = some ⟨store, path, phase⟩)
    (right : locks.calls.lookup second = some ⟨store, path, phase'⟩)
    (holds : phase.holds? = some true) (holds' : phase'.holds? = some true) : first = second := by
  have standing := wellFormed.standing left
  have standing' := wellFormed.standing right
  rw [holds] at standing
  rw [holds'] at standing'
  exact (wellFormed.permits store).holder_unique standing standing'

/-- A waiting call gets its permit exactly if no other call or guard of its storage and path has
it. -/
theorem WellFormed.granted_iff (wellFormed : locks.WellFormed) {caller : Nat}
    (waits : locks.calls.lookup caller = some ⟨store, path, .waiting⟩) :
    (locks.step (.acquire caller)).calls.lookup caller ≠ some ⟨store, path, .waiting⟩ ↔
      ∀ other phase, locks.calls.lookup other = some ⟨store, path, phase⟩ →
        phase.holds? ≠ some true := by
  have decides := (wellFormed.permits store).acquire_iff (wellFormed.standing waits)
  have none_holds : (∀ other, (locks.stores store).permits.standing other ≠ some (path, true)) ↔
      ∀ other phase, locks.calls.lookup other = some ⟨store, path, phase⟩ →
        phase.holds? ≠ some true := by
    constructor
    · intro nobody other phase found holds
      refine nobody other ((wellFormed.standing found).trans ?_)
      rw [holds]
      rfl
    · intro nobody other standing
      rw [(wellFormed.agrees other).standing store] at standing
      cases found : locks.calls.lookup other with
      | none =>
          rw [found] at standing
          cases standing
      | some call =>
          obtain ⟨own, of, phase⟩ := call
          rw [found, standingOf] at standing
          split at standing
          · rename_i same
            obtain ⟨holds, holds_eq, pair⟩ := Option.map_eq_some_iff.mp standing
            obtain ⟨rfl, rfl⟩ := Prod.mk.inj pair
            obtain rfl : own = store := same
            exact nobody other phase found holds_eq
          · cases standing
  rw [← none_holds, ← decides, Locks.step, waits]
  dsimp only
  by_cases granted :
      ((locks.stores store).permits.acquire caller).standing caller = some (path, true)
  · rw [if_pos granted]
    refine iff_of_true (fun still => ?_) granted
    rw [AList.lookup_insert] at still
    have phase := congrArg LockCall.phase (Option.some.inj still)
    dsimp only at phase
    split at phase <;> cases phase
  · rw [if_neg granted]
    exact iff_of_false (fun moved => moved waits) granted

end

theorem localRoot_after (start : Locks) (events : List LockEvent) (store : Nat) :
    ((Run.after step start events).stores store).localRoot = (start.stores store).localRoot := by
  induction events generalizing start with
  | nil => rfl
  | cons event events ih => rw [Run.after_cons, ih, localRoot_step]

/-- In every run, one call at most has the permit of a storage and path, a waiting call gets it
exactly when none has it, and the guards of all local storages over one lock file are one unless
somebody deletes that file. -/
theorem exclusive_after (roots : Nat → Option String) (events : List LockEvent) :
    let locks := Run.after step (new roots) events
    (∀ first second store path phase phase',
      locks.calls.lookup first = some ⟨store, path, phase⟩ →
        locks.calls.lookup second = some ⟨store, path, phase'⟩ →
          phase.holds? = some true → phase'.holds? = some true → first = second) ∧
    (∀ caller store path, locks.calls.lookup caller = some ⟨store, path, .waiting⟩ →
      ((locks.step (.acquire caller)).calls.lookup caller ≠ some ⟨store, path, .waiting⟩ ↔
        ∀ other phase, locks.calls.lookup other = some ⟨store, path, phase⟩ →
          phase.holds? ≠ some true)) ∧
    ∀ full, .unlink full ∉ events → ∀ first second call call' root root' inode inode',
      locks.calls.lookup first = some call → locks.calls.lookup second = some call' →
        call.phase = .guard inode → call'.phase = .guard inode' →
          roots call.store = some root → roots call'.store = some root' →
            joinPath root call.path = full → joinPath root' call'.path = full →
              first = second := by
  intro locks
  have wellFormed : locks.WellFormed := wellFormed_after roots events
  refine ⟨fun first second store path phase phase' left right => wellFormed.guard_unique left right,
    fun caller store path waits => wellFormed.granted_iff waits, ?_⟩
  intro full kept first second call call' root root' inode inode' left right phase phase' rooted
    rooted' resolved resolved'
  have one : OneFile full locks := oneFile_after roots kept
  have locked {caller : Nat} {call : LockCall} {root : String} {inode : Option Nat}
      (found : locks.calls.lookup caller = some call) (phase : call.phase = .guard inode)
      (rooted : roots call.store = some root) (resolved : joinPath root call.path = full) :
      ∃ own, locks.files full = some own ∧ locks.flocks own = some caller := by
    have at_root : (locks.stores call.store).localRoot = some root :=
      (localRoot_after (new roots) events call.store).trans rooted
    have fits := (wellFormed.agrees caller).fits call found
    rw [phase, at_root] at fits
    obtain ⟨own, rfl⟩ := Option.isSome_iff_exists.mp (fits.trans Option.isSome_some)
    exact ⟨own, one caller call root own found at_root resolved (phase ▸ rfl),
      ((wellFormed.agrees caller).flock own).mpr ⟨call, found, phase⟩⟩
  obtain ⟨own, there, mine⟩ := locked left phase rooted resolved
  obtain ⟨own', there', mine'⟩ := locked right phase' rooted' resolved'
  rw [there] at there'
  obtain rfl := Option.some.inj there'
  exact Option.some.inj (mine.symm.trans mine')

end Locks

end IcefallDB
