import IcefallDB.Transaction
import Mathlib

/-!
# Histories of the transaction manager

As long as no commit moves the pointer of a table and no committed transaction has logged rows, the
tables keep what they held in the beginning through every interleaving of calls, every failure and
every crash, and recovering finds nothing to apply.  Every transaction is in one hand at a time: it is
being entered, active, being decided by one call, or decided.
-/

namespace IcefallDB

variable {R : Type}

/-! ## Appending under a condition -/

namespace LogProcess

/-- An append finds no torn line, and leaves nothing of its record or all of it. -/
def Appends (process : LogProcess) (body : LogEntryBody) (outcome : AppendOutcome) : Prop :=
  ∀ lsn, process.nextLsn = some lsn →
    Untorn (Wal.segmentBytes process.segments (Wal.segmentForLsn lsn)) ∧
      match outcome with
      | .done => True
      | .failed kept => kept = 0 ∨ (LogEntry.line { lsn, body }).length ≤ kept + 1

variable {process : LogProcess} {body : LogEntryBody} {outcome : AppendOutcome}

/-- Under the condition the log stays intact.  The entry is durable, or nothing changed and the append
failed. -/
theorem appendEntry_spec (intact : process.Intact) (appends : process.Appends body outcome)
    (decides : Decides process.durable body) :
    (process.appendEntry body outcome).1.Intact ∧
      (((process.appendEntry body outcome).1.durable = process.durable ∧
          (process.appendEntry body outcome).2 = false) ∨
        (outcome ≠ .failed 0 ∧ ∃ entry : LogEntry, entry.body = body ∧
          (process.appendEntry body outcome).1.durable = process.durable ++ [entry])) := by
  cases outcome with
  | done =>
      have guarded : process.Guarded (.append body) :=
        fun lsn is_open => ⟨(appends lsn is_open).1, decides⟩
      refine ⟨intact.perform guarded, ?_⟩
      cases is_open : process.nextLsn with
      | none => simp [appendEntry, perform, is_open]
      | some lsn => simp [appendEntry, perform, is_open]
  | failed kept =>
      cases is_open : process.nextLsn with
      | none =>
          simp only [appendEntry, is_open]
          exact ⟨intact, .inl ⟨trivial, trivial⟩⟩
      | some lsn =>
          obtain ⟨untorn, rfl | whole⟩ := appends lsn is_open
          · have guarded : process.Guarded (.crash body 0) := by
              intro other other_open
              obtain rfl := Option.some.inj (is_open.symm.trans other_open)
              exact ⟨untorn, decides, .inl rfl⟩
            have crashed := intact.perform guarded
            have long := one_lt_length_line { lsn, body }
            have nothing : ¬(LogEntry.line { lsn, body }).length ≤ 0 + 1 := by omega
            simp only [appendEntry, perform, is_open, if_neg nothing] at crashed ⊢
            refine ⟨{ crashed with next := ?_ }, .inl ⟨trivial, trivial⟩⟩
            intro next next_eq entry member
            obtain rfl := Option.some.inj next_eq
            have below := intact.next lsn is_open entry member
            exact Nat.lt_succ_of_lt below
          · have long := one_lt_length_line { lsn, body }
            simp only [appendEntry, perform, is_open, if_pos whole]
            constructor
            · exact intact.record is_open untorn decides whole fun next next_eq =>
                (Option.some.inj next_eq).symm
            · right
              refine ⟨?_, { lsn, body }, rfl, rfl⟩
              intro same
              obtain rfl := AppendOutcome.failed.inj same
              omega

end LogProcess

/-! ## The condition -/

/-- Every logged batch of a transaction is without rows. -/
def LogsNoRows (engine : TransactionEngine R) (durable : List LogEntry) (txId : String) : Prop :=
  ∀ entry ∈ durable, ∀ table rowsIpc batches, entry.body = .insert txId table rowsIpc →
    engine.readIpc table rowsIpc = .ok batches → batchRows batches = []

namespace TransactionManager

/-- A call has no rows for its next table, or moves no pointer of it. -/
def WritesNothing (engine : TransactionEngine R) (state : TransactionManager R) (call : Nat)
    (choices : Choices R) : Prop :=
  ∀ txId inserts table remaining, state.calls call = some (.write txId inserts (table :: remaining)) →
    batchRows (TransactionInsert.batches inserts table) = [] ∨
      ∀ effect ∈ ((engine.writer table).insertAll choices (TransactionInsert.batches inserts table)
        (state.tables table)).1, Writer.movesPointer effect = false

/-- What a call writes to its next table before it stops moves no pointer, and leaves no first
manifest behind. -/
def StopsUnmoved (engine : TransactionEngine R) (state : TransactionManager R) (call : Nat)
    (choices : Choices R) (steps : Nat) (undone : Nat → Bool) : Prop :=
  ∀ txId inserts table remaining, state.calls call = some (.write txId inserts (table :: remaining)) →
    let performed := ((engine.writer table).insertAll choices (TransactionInsert.batches inserts table)
      (state.tables table)).1.take steps
    (∀ effect ∈ performed, Writer.movesPointer effect = false) ∧
      ((state.tables table).pointer = .latest 0 →
        (∀ sequence manifest, .writeManifest sequence manifest ∉ performed) ∨
          ∃ sequence, .deleteManifest sequence ∈
            Writer.undoes performed undone (state.tables table))

/-- Appends find no torn line and leave none, no commit moves the pointer of a table, no rows are
logged for a committed transaction, and no transaction commits for which rows are logged. -/
def Guarded (engine : TransactionEngine R) (state : TransactionManager R) :
    TransactionEvent R → Prop
  | .begin _ txId outcome => state.wal.Appends (.begin txId) outcome
  | .addInsert _ txId insert outcome =>
      ∀ rowsIpc, engine.writeIpc insert.batch = .ok rowsIpc →
        state.wal.Appends (.insert txId insert.table rowsIpc) outcome ∧
          (outcome ≠ .failed 0 → insert.batch.rows ≠ [] →
            ∀ entry ∈ state.wal.durable, entry.body ≠ .commit txId)
  | .write call choices => state.WritesNothing engine call choices
  | .stopWrite call choices steps undone => state.StopsUnmoved engine call choices steps undone
  | .decide call outcome =>
      (∀ txId inserts, state.calls call = some (.write txId inserts []) →
        state.wal.Appends (.commit txId) outcome ∧
          (outcome ≠ .failed 0 → LogsNoRows engine state.wal.durable txId)) ∧
      ∀ txId, state.calls call = some (.rollback txId) → state.wal.Appends (.rollback txId) outcome
  | _ => True

end TransactionManager

/-! ## Who holds a transaction -/

/-- In whose hands a transaction is. -/
inductive TransactionOwner
  | nobody
  /-- The call that begins it has logged it. -/
  | entering (call : Nat)
  | active
  /-- A call took it, to commit it or to roll it back. -/
  | deciding (call : Nat)
  | decided

/-- The transaction that a call decides. -/
def TransactionCall.decides : TransactionCall R → Option String
  | .lock txId _ _ | .write txId _ _ | .rollback txId => some txId
  | .enter _ | .buffer _ _ => none

/-- The entry decides the transaction. -/
def LogEntryBody.Decides (body : LogEntryBody) (txId : String) : Prop :=
  body = .commit txId ∨ body = .rollback txId

namespace TransactionManager

/-- Every transaction is in the hands of its owner. -/
structure Owned (owner : String → TransactionOwner) (state : TransactionManager R) : Prop where
  issued : ∀ txId, owner txId ≠ .nobody → txId ∈ state.issued
  entering : ∀ call txId, state.calls call = some (.enter txId) → owner txId = .entering call
  active : ∀ txId inserts, state.transactions txId = some inserts → owner txId = .active
  deciding : ∀ call next txId, state.calls call = some next → next.decides = some txId →
    owner txId = .deciding call
  decided : ∀ entry ∈ state.wal.durable, ∀ txId, entry.body.Decides txId → owner txId = .decided

/-- The insertion is logged. -/
def Logged (engine : TransactionEngine R) (durable : List LogEntry) (txId : String)
    (insert : TransactionInsert R) : Prop :=
  ∃ entry ∈ durable, ∃ rowsIpc, engine.writeIpc insert.batch = .ok rowsIpc ∧
    entry.body = .insert txId insert.table rowsIpc

/-- No transaction of the log is committed and rolled back, and none with rows is committed. -/
structure Rowless (engine : TransactionEngine R) (durable : List LogEntry) : Prop where
  once : ∀ txId, (∃ entry ∈ durable, entry.body = .commit txId) →
    ∀ entry ∈ durable, entry.body ≠ .rollback txId
  rowless : ∀ txId, (∃ entry ∈ durable, entry.body = .commit txId) → LogsNoRows engine durable txId

/-- The entry keeps that. -/
def Follows (engine : TransactionEngine R) (durable : List LogEntry) : LogEntryBody → Prop
  | .begin _ => True
  | .insert txId table rowsIpc =>
      (∃ entry ∈ durable, entry.body = .commit txId) →
        ∀ batches, engine.readIpc table rowsIpc = .ok batches → batchRows batches = []
  | .commit txId =>
      LogsNoRows engine durable txId ∧ ∀ entry ∈ durable, entry.body ≠ .rollback txId
  | .rollback txId => ∀ entry ∈ durable, entry.body ≠ .commit txId

/-- What the log and the clients know. -/
structure Recorded (engine : TransactionEngine R) (state : TransactionManager R) : Prop where
  intact : state.wal.Intact
  rowless : Rowless engine state.wal.durable
  buffering : ∀ call txId insert, state.calls call = some (.buffer txId insert) →
    Logged engine state.wal.durable txId insert
  accepted : ∀ insert ∈ state.accepted, Logged engine state.wal.durable insert.1 insert.2
  committed : ∀ txId ∈ state.committed, ∃ entry ∈ state.wal.durable, entry.body = .commit txId
  rolledBack : ∀ txId ∈ state.rolledBack, ∃ entry ∈ state.wal.durable, entry.body = .rollback txId

/-- Nothing was committed but transactions without rows. -/
structure Sound (engine : TransactionEngine R) (initial : String → List R)
    (state : TransactionManager R) : Prop where
  owned : ∃ owner, Owned owner state
  recorded : Recorded engine state
  holds : engine.Holds initial state.tables

variable {engine : TransactionEngine R} {initial : String → List R} {state : TransactionManager R}
  {owner : String → TransactionOwner} {call : Nat} {txId : String}

theorem sound_new {tables : Tables R} (holds : engine.Holds initial tables) :
    Sound engine initial (new tables) where
  owned := ⟨fun _ => .nobody, by constructor <;> simp [new, LogProcess.new]⟩
  recorded := by
    constructor
    · exact LogProcess.Intact.new
    · constructor <;> simp [new, LogProcess.new]
    all_goals simp [new, LogProcess.new]
  holds := holds

/-! ## Handing transactions over -/

theorem calls_setCall (state : TransactionManager R) (call other : Nat)
    (next : Option (TransactionCall R)) :
    (state.setCall call next).calls other = if other = call then next else state.calls other :=
  Function.update_apply ..

theorem transactions_setTransaction (state : TransactionManager R) (txId other : String)
    (inserts : Option (List (TransactionInsert R))) :
    (state.setTransaction txId inserts).transactions other =
      if other = txId then inserts else state.transactions other :=
  Function.update_apply ..

namespace Owned

/-- A transaction goes into another hand when its call proceeds. -/
theorem transfer (owned : Owned owner state) (hand : TransactionOwner)
    (free : ∀ other ≠ call, owner txId ≠ .entering other ∧ owner txId ≠ .deciding other)
    (known : txId ∈ state.issued) (inactive : ∀ inserts, state.transactions txId ≠ some inserts)
    (undecided : ∀ entry ∈ state.wal.durable, ¬entry.body.Decides txId)
    {next : Option (TransactionCall R)}
    (enters : ∀ id, next = some (.enter id) → id = txId ∧ hand = .entering call)
    (decides : ∀ step id, next = some step → step.decides = some id →
      id = txId ∧ hand = .deciding call) :
    Owned (Function.update owner txId hand) (state.setCall call next) where
  issued id held := by
    by_cases same : id = txId
    · exact same ▸ known
    · rw [Function.update_of_ne same] at held
      exact owned.issued id held
  entering other id found := by
    rw [calls_setCall] at found
    split at found
    · next same =>
        obtain ⟨rfl, rfl⟩ := enters id found
        rw [Function.update_self, same]
    · next different =>
        have held := owned.entering other id found
        have elsewhere : id ≠ txId := fun same => (free other different).1 (same ▸ held)
        rw [Function.update_of_ne elsewhere, held]
  active id inserts found := by
    have elsewhere : id ≠ txId := fun same => inactive inserts (same ▸ found)
    rw [Function.update_of_ne elsewhere]
    exact owned.active id inserts found
  deciding other step id found deciding := by
    rw [calls_setCall] at found
    split at found
    · next same =>
        obtain ⟨rfl, rfl⟩ := decides step id found deciding
        rw [Function.update_self, same]
    · next different =>
        have held := owned.deciding other step id found deciding
        have elsewhere : id ≠ txId := fun same => (free other different).2 (same ▸ held)
        rw [Function.update_of_ne elsewhere, held]
  decided entry member id decides_id := by
    have elsewhere : id ≠ txId := fun same => undecided entry member (same ▸ decides_id)
    rw [Function.update_of_ne elsewhere]
    exact owned.decided entry member id decides_id

/-- A call that returns, or goes on deciding its transaction, keeps everything where it is. -/
theorem proceed (owned : Owned owner state) {next : Option (TransactionCall R)}
    (enters : ∀ id, next ≠ some (.enter id))
    (decides : ∀ step id, next = some step → step.decides = some id → owner id = .deciding call) :
    Owned owner (state.setCall call next) where
  issued := owned.issued
  entering other id found := by
    rw [calls_setCall] at found
    split at found
    · exact absurd found (enters id)
    · exact owned.entering other id found
  active := owned.active
  deciding other step id found deciding := by
    rw [calls_setCall] at found
    split at found
    · next same => exact same ▸ decides step id found deciding
    · exact owned.deciding other step id found deciding
  decided := owned.decided

theorem returned (owned : Owned owner state) (call : Nat) : Owned owner (state.setCall call none) :=
  owned.proceed nofun nofun

/-- An active transaction changes. -/
theorem setTransaction (owned : Owned owner state) {inserts : Option (List (TransactionInsert R))}
    (held : ∀ some_inserts, inserts = some some_inserts → owner txId = .active) :
    Owned owner (state.setTransaction txId inserts) where
  issued := owned.issued
  entering := owned.entering
  active id some_inserts found := by
    rw [transactions_setTransaction] at found
    split at found
    · next same => exact same ▸ held some_inserts found
    · exact owned.active id some_inserts found
  deciding := owned.deciding
  decided := owned.decided

/-- An entry is logged. -/
theorem append (owned : Owned owner state) {wal : LogProcess} {entry : LogEntry}
    (durable : wal.durable = state.wal.durable ∨ wal.durable = state.wal.durable ++ [entry])
    (held : ∀ id, entry.body.Decides id → owner id = .decided) :
    Owned owner { state with wal } where
  issued := owned.issued
  entering := owned.entering
  active := owned.active
  deciding := owned.deciding
  decided other member id decides := by
    rcases durable with same | added
    · exact owned.decided other (same ▸ member) id decides
    · rw [show ({ state with wal } : TransactionManager R).wal.durable = _ from added] at member
      rcases List.mem_append.mp member with earlier | last
      · exact owned.decided other earlier id decides
      · obtain rfl := List.mem_singleton.mp last
        exact held id decides

end Owned

/-! ## What is recorded -/

theorem Rowless.append {durable : List LogEntry} {entry : LogEntry} (rowless : Rowless engine durable)
    (follows : Follows engine durable entry.body) : Rowless engine (durable ++ [entry]) := by
  have commits : ∀ id, (∃ other ∈ durable ++ [entry], other.body = .commit id) →
      (∃ other ∈ durable, other.body = .commit id) ∨ entry.body = .commit id := by
    intro id committed
    obtain ⟨other, member, body_eq⟩ := committed
    rcases List.mem_append.mp member with earlier | last
    · exact .inl ⟨other, earlier, body_eq⟩
    · obtain rfl := List.mem_singleton.mp last
      exact .inr body_eq
  constructor
  · intro id committed other member other_eq
    rcases List.mem_append.mp member with earlier | last
    · rcases commits id committed with before | now
      · exact rowless.once id before other earlier other_eq
      · rw [now] at follows
        exact follows.2 other earlier other_eq
    · obtain rfl := List.mem_singleton.mp last
      rw [other_eq] at follows
      rcases commits id committed with ⟨_, earlier, before⟩ | now
      · exact follows _ earlier before
      · cases now.symm.trans other_eq
  · intro id committed other member table rowsIpc batches other_eq read
    rcases List.mem_append.mp member with earlier | last
    · rcases commits id committed with before | now
      · exact rowless.rowless id before other earlier table rowsIpc batches other_eq read
      · rw [now] at follows
        exact follows.1 other earlier table rowsIpc batches other_eq read
    · obtain rfl := List.mem_singleton.mp last
      rw [other_eq] at follows
      rcases commits id committed with before | now
      · exact follows before batches read
      · cases now.symm.trans other_eq

theorem Logged.mono {durable later : List LogEntry} {insert : TransactionInsert R}
    (logged : Logged engine durable txId insert) (subset : durable ⊆ later) :
    Logged engine later txId insert := by
  obtain ⟨entry, member, found⟩ := logged
  exact ⟨entry, subset member, found⟩

namespace Recorded

/-- A call proceeds. -/
theorem setCall (recorded : Recorded engine state) {next : Option (TransactionCall R)}
    (buffers : ∀ id insert, next = some (.buffer id insert) →
      Logged engine state.wal.durable id insert) : Recorded engine (state.setCall call next) where
  intact := recorded.intact
  rowless := recorded.rowless
  buffering other id insert found := by
    rw [calls_setCall] at found
    split at found
    · exact buffers id insert found
    · exact recorded.buffering other id insert found
  accepted := recorded.accepted
  committed := recorded.committed
  rolledBack := recorded.rolledBack

/-- An append runs its course. -/
theorem append (recorded : Recorded engine state) {body : LogEntryBody} {outcome : AppendOutcome}
    (appends : state.wal.Appends body outcome) (decides : LogProcess.Decides state.wal.durable body)
    (follows : outcome ≠ .failed 0 → Follows engine state.wal.durable body) :
    Recorded engine { state with wal := (state.wal.appendEntry body outcome).1 } := by
  obtain ⟨intact, kinds⟩ := LogProcess.appendEntry_spec recorded.intact appends decides
  have grows : state.wal.durable ⊆ (state.wal.appendEntry body outcome).1.durable := by
    rcases kinds with ⟨unchanged, -⟩ | ⟨-, entry, -, added⟩
    · exact unchanged ▸ List.Subset.refl _
    · exact added ▸ List.subset_append_left _ _
  constructor
  · exact intact
  · rcases kinds with ⟨unchanged, -⟩ | ⟨kept, entry, rfl, added⟩
    · rw [unchanged]
      exact recorded.rowless
    · rw [added]
      exact recorded.rowless.append (follows kept)
  · intro call id insert found
    exact (recorded.buffering call id insert found).mono grows
  · intro insert member
    exact (recorded.accepted insert member).mono grows
  · intro id member
    obtain ⟨entry, there, body_eq⟩ := recorded.committed id member
    exact ⟨entry, grows there, body_eq⟩
  · intro id member
    obtain ⟨entry, there, body_eq⟩ := recorded.rolledBack id member
    exact ⟨entry, grows there, body_eq⟩

/-- Nothing that is committed has rows. -/
theorem commitsNoRows (recorded : Recorded engine state) :
    Recovery.CommitsNoRows engine.toEngine state.wal.segments := by
  intro entries inserts entries_eq decoded insert member
  have written : state.wal.segments.keys ≠ [] := by
    intro unwritten
    rw [Wal.entries, unwritten] at entries_eq
    cases entries_eq
  obtain ⟨classified, classified_eq, committed⟩ := (recorded.intact.recovers written).exact
  rw [Recovery.recover_of_entries entries_eq] at classified_eq
  obtain rfl := Except.ok.inj classified_eq
  rw [LogProcess.entries_of_intact recorded.intact written] at entries_eq
  obtain rfl := Except.ok.inj entries_eq
  obtain ⟨decided, entry, there, rowsIpc, body_eq, read⟩ :=
    Recovery.logged_of_decodeInserts decoded insert member
  exact recorded.rowless.rowless _ ((committed _).mp decided) entry there _ _ _ body_eq read

/-- What clients were told was accepted for a committed transaction has no rows. -/
theorem acceptedRows_eq_nil (recorded : Recorded engine state)
    (committed : ∃ entry ∈ state.wal.durable, entry.body = .commit txId) (table : String) :
    state.acceptedRows txId table = [] := by
  rw [acceptedRows, List.flatMap_eq_nil_iff]
  intro insert member
  obtain ⟨accepted, matches_both⟩ := List.mem_filter.mp member
  rw [Bool.and_eq_true, decide_eq_true_iff] at matches_both
  obtain ⟨entry, there, rowsIpc, encoded, body_eq⟩ := recorded.accepted insert accepted
  rw [matches_both.1] at body_eq
  have empty := recorded.rowless.rowless txId committed entry there _ _ _ body_eq
    (engine.readIpc_writeIpc encoded)
  simpa [batchRows] using empty

end Recorded

variable {body : LogEntryBody} {outcome : AppendOutcome}

/-- An append that succeeds logs its entry. -/
theorem logged_of_done {wal : LogProcess} (intact : state.wal.Intact)
    (appends : state.wal.Appends body outcome) (decides : LogProcess.Decides state.wal.durable body)
    (appended : state.wal.appendEntry body outcome = (wal, true)) :
    ∃ entry ∈ wal.durable, entry.body = body := by
  obtain ⟨-, ⟨-, failed⟩ | ⟨-, entry, body_eq, added⟩⟩ :=
    LogProcess.appendEntry_spec intact appends decides
  · cases failed.symm.trans (congrArg Prod.snd appended)
  · rw [appended] at added
    exact ⟨entry, added ▸ List.mem_append_right _ (List.mem_singleton.mpr rfl), body_eq⟩

/-- An append runs its course. -/
theorem Owned.appendEntry (owned : Owned owner state) (intact : state.wal.Intact)
    (appends : state.wal.Appends body outcome) (decides : LogProcess.Decides state.wal.durable body)
    (held : ∀ id, body.Decides id → owner id = .decided) :
    Owned owner { state with wal := (state.wal.appendEntry body outcome).1 } := by
  obtain ⟨-, ⟨unchanged, -⟩ | ⟨-, entry, rfl, added⟩⟩ :=
    LogProcess.appendEntry_spec intact appends decides
  · have same : ∀ entry ∈ (state.wal.appendEntry body outcome).1.durable, ∀ id,
        entry.body.Decides id → owner id = .decided := unchanged ▸ owned.decided
    exact ⟨owned.issued, owned.entering, owned.active, owned.deciding, same⟩
  · exact owned.append (.inr added) held

/-! ## What each event keeps -/

namespace Sound

theorem begins (sound : Sound engine initial state)
    (appends : state.wal.Appends (.begin txId) outcome) :
    Sound engine initial (perform engine state (.begin call txId outcome)) := by
  by_cases fits : state.calls call = none ∧ txId ∉ state.issued
  · obtain ⟨⟨owner, owned⟩, recorded, holds⟩ := sound
    have nobody : owner txId = .nobody := by
      by_contra held
      exact fits.2 (owned.issued txId held)
    have logged := recorded.append appends nofun fun _ => trivial
    have kept := owned.appendEntry recorded.intact appends nofun fun id decides => by
      rcases decides with same | same <;> cases same
    rcases appended : state.wal.appendEntry (.begin txId) outcome with ⟨wal, done⟩
    rw [appended] at logged kept
    have begun : Owned owner { state with wal, issued := txId :: state.issued } :=
      ⟨fun id held => List.mem_cons_of_mem _ (kept.issued id held), kept.entering, kept.active,
        kept.deciding, kept.decided⟩
    have recorded_begun : Recorded engine { state with wal, issued := txId :: state.issued } :=
      ⟨logged.intact, logged.rowless, logged.buffering, logged.accepted, logged.committed,
        logged.rolledBack⟩
    simp only [perform, if_pos fits, appended]
    cases done with
    | false => exact ⟨⟨owner, begun⟩, recorded_begun, holds⟩
    | true =>
        have entered : Owned (Function.update owner txId (.entering call))
            ({ state with wal, issued := txId :: state.issued }.setCall call
              (some (.enter txId))) := by
          apply begun.transfer (.entering call)
          · intro other _
            rw [nobody]
            exact ⟨nofun, nofun⟩
          · exact List.mem_cons_self
          · intro inserts found
            cases nobody.symm.trans (begun.active txId inserts found)
          · intro entry member decides
            cases nobody.symm.trans (begun.decided entry member txId decides)
          · intro id same
            cases same
            exact ⟨rfl, rfl⟩
          · intro step id same decides
            cases same
            cases decides
        exact ⟨⟨_, entered⟩, recorded_begun.setCall nofun, holds⟩
  · simp only [perform, if_neg fits]
    exact sound

theorem addsInsert (sound : Sound engine initial state) {insert : TransactionInsert R}
    (guarded : Guarded engine state (.addInsert call txId insert outcome)) :
    Sound engine initial (perform engine state (.addInsert call txId insert outcome)) := by
  rw [perform]
  split
  · next rowsIpc free encoded =>
      obtain ⟨⟨owner, owned⟩, recorded, holds⟩ := sound
      obtain ⟨appends, uncommitted⟩ := guarded rowsIpc encoded
      have follows : outcome ≠ .failed 0 →
          Follows engine state.wal.durable (.insert txId insert.table rowsIpc) := by
        rintro kept ⟨entry, member, body_eq⟩ batches read
        obtain rfl := Except.ok.inj (read.symm.trans (engine.readIpc_writeIpc encoded))
        by_contra rows
        have some_rows : insert.batch.rows ≠ [] := by simpa [batchRows] using rows
        exact uncommitted kept some_rows entry member body_eq
      have logged := recorded.append appends (by rintro _ ⟨⟩) follows
      have kept := owned.appendEntry recorded.intact appends (by rintro _ ⟨⟩) fun id decides => by
        rcases decides with same | same <;> cases same
      have added : ∀ wal, state.wal.appendEntry (.insert txId insert.table rowsIpc) outcome =
          (wal, true) → ∃ entry ∈ wal.durable, entry.body = .insert txId insert.table rowsIpc :=
        fun _ => logged_of_done recorded.intact appends (by rintro _ ⟨⟩)
      rcases appended : state.wal.appendEntry (.insert txId insert.table rowsIpc) outcome
        with ⟨wal, done⟩
      rw [appended] at logged kept
      cases done with
      | false => exact ⟨⟨owner, kept⟩, logged, holds⟩
      | true =>
          obtain ⟨entry, member, body_eq⟩ := added wal appended
          refine ⟨⟨owner, kept.proceed (by rintro _ ⟨⟩) ?_⟩, logged.setCall ?_, holds⟩
          · intro step id same decides
            cases same
            cases decides
          · intro id other same
            cases same
            exact ⟨entry, member, rowsIpc, encoded, body_eq⟩
  · exact sound

/-- A call takes an active transaction. -/
theorem takes (sound : Sound engine initial state)
    {next : List (TransactionInsert R) → TransactionCall R}
    (decides : ∀ inserts, (next inserts).decides = some txId) :
    Sound engine initial (state.take call txId next) := by
  rw [take]
  split
  · next inserts free found =>
      obtain ⟨⟨owner, owned⟩, recorded, holds⟩ := sound
      have active := owned.active txId inserts found
      have taken : Owned owner (state.setTransaction txId none) := owned.setTransaction nofun
      have handed : Owned (Function.update owner txId (.deciding call))
          ((state.setTransaction txId none).setCall call (some (next inserts))) := by
        apply taken.transfer (.deciding call)
        · intro other _
          rw [active]
          exact ⟨nofun, nofun⟩
        · exact owned.issued txId (by rw [active]; nofun)
        · intro others
          rw [transactions_setTransaction, if_pos rfl]
          nofun
        · intro entry member decided
          cases active.symm.trans (owned.decided entry member txId decided)
        · intro id same
          have other := decides inserts
          rw [Option.some.inj same] at other
          cases other
        · intro step id same decided
          obtain rfl := Option.some.inj same
          exact ⟨Option.some.inj (decided.symm.trans (decides inserts)), rfl⟩
      have recorded_taken : Recorded engine (state.setTransaction txId none) :=
        ⟨recorded.intact, recorded.rowless, recorded.buffering, recorded.accepted,
          recorded.committed, recorded.rolledBack⟩
      refine ⟨⟨_, handed⟩, recorded_taken.setCall ?_, holds⟩
      intro id insert same
      have other := decides inserts
      rw [Option.some.inj same] at other
      cases other
  · exact sound

/-- A call returns without having decided its transaction. -/
theorem finishes (sound : Sound engine initial state) (call : Nat) :
    Sound engine initial (state.finish call) := by
  obtain ⟨⟨owner, owned⟩, recorded, holds⟩ := sound
  have returned := owned.returned call
  have recorded_returned : Recorded engine (state.setCall call none) := recorded.setCall nofun
  exact ⟨⟨owner, returned.issued, returned.entering, returned.active, returned.deciding,
    returned.decided⟩, ⟨recorded_returned.intact, recorded_returned.rowless,
    recorded_returned.buffering, recorded_returned.accepted, recorded_returned.committed,
    recorded_returned.rolledBack⟩, holds⟩

/-- A call goes on to decide the transaction it took. -/
theorem goesOn (sound : Sound engine initial state) {current next : TransactionCall R}
    (found : state.calls call = some current) (decides : current.decides = some txId)
    (same : next.decides = some txId) : Sound engine initial (state.setCall call (some next)) := by
  obtain ⟨⟨owner, owned⟩, recorded, holds⟩ := sound
  refine ⟨⟨owner, owned.proceed ?_ ?_⟩, recorded.setCall ?_, holds⟩
  · intro id entering
    rw [Option.some.inj entering] at same
    cases same
  · intro step id step_eq deciding
    obtain rfl := Option.some.inj step_eq
    obtain rfl := Option.some.inj (deciding.symm.trans same)
    exact owned.deciding call current _ found decides
  · intro id insert buffering
    rw [Option.some.inj buffering] at same
    cases same

theorem advances (sound : Sound engine initial state) (call : Nat) :
    Sound engine initial (state.advance call) := by
  rw [advance]
  split
  · next txId found =>
      obtain ⟨⟨owner, owned⟩, recorded, holds⟩ := sound
      have entering := owned.entering call txId found
      have entered : Owned (Function.update owner txId .active) (state.setCall call none) := by
        apply owned.transfer .active
        · intro other different
          rw [entering]
          exact ⟨fun same => different (TransactionOwner.entering.inj same).symm, nofun⟩
        · exact owned.issued txId (by rw [entering]; nofun)
        · intro inserts active
          cases entering.symm.trans (owned.active txId inserts active)
        · intro entry member decided
          cases entering.symm.trans (owned.decided entry member txId decided)
        · nofun
        · nofun
      have active : Owned (Function.update owner txId .active)
          ((state.setCall call none).setTransaction txId (some [])) :=
        entered.setTransaction fun _ _ => Function.update_self ..
      have returned : Recorded engine (state.setCall call none) := recorded.setCall nofun
      exact ⟨⟨_, active⟩, ⟨returned.intact, returned.rowless, returned.buffering,
        returned.accepted, returned.committed, returned.rolledBack⟩, holds⟩
  · next txId insert found =>
      obtain ⟨⟨owner, owned⟩, recorded, holds⟩ := sound
      have returned : Recorded engine (state.setCall call none) := recorded.setCall nofun
      split
      · exact ⟨⟨owner, owned.returned call⟩, returned, holds⟩
      · next inserts active =>
          have buffered : Owned owner
              ((state.setTransaction txId (some (inserts ++ [insert]))).setCall call none) :=
            (owned.setTransaction fun _ _ => owned.active txId inserts active).returned call
          refine ⟨⟨owner, buffered.issued, buffered.entering, buffered.active, buffered.deciding,
            buffered.decided⟩, ⟨returned.intact, returned.rowless, returned.buffering, ?_,
            returned.committed, returned.rolledBack⟩, holds⟩
          intro other member
          rcases List.mem_append.mp member with earlier | last
          · exact recorded.accepted other earlier
          · obtain rfl := List.mem_singleton.mp last
            exact recorded.buffering call txId insert found
  · next txId inserts table remaining found =>
      split
      · have locked : Sound engine initial
            (state.setCall call (some (.lock txId inserts remaining))) :=
          sound.goesOn found rfl rfl
        obtain ⟨⟨owner, owned⟩, recorded, holds⟩ := locked
        exact ⟨⟨owner, owned.issued, owned.entering, owned.active, owned.deciding, owned.decided⟩,
          ⟨recorded.intact, recorded.rowless, recorded.buffering, recorded.accepted,
            recorded.committed, recorded.rolledBack⟩, holds⟩
      · exact sound
  · next txId inserts found => exact sound.goesOn found rfl rfl
  · exact sound

/-- A table changes, but not its rows. -/
theorem setsTable (sound : Sound engine initial state) {table : String} {storage : TableStorage R}
    (held : HoldsTable (engine.writer table) (initial table) storage) :
    Sound engine initial (state.setTable table storage) := by
  obtain ⟨⟨owner, owned⟩, recorded, holds⟩ := sound
  have updated := holds.update held
  rw [Function.update_eq_self] at updated
  exact ⟨⟨owner, owned.issued, owned.entering, owned.active, owned.deciding, owned.decided⟩,
    ⟨recorded.intact, recorded.rowless, recorded.buffering, recorded.accepted, recorded.committed,
      recorded.rolledBack⟩, updated⟩

theorem writes (sound : Sound engine initial state) {choices : Choices R}
    (unmoved : state.WritesNothing engine call choices) :
    Sound engine initial (perform engine state (.write call choices)) := by
  rw [perform]
  split
  · next txId inserts table remaining found =>
      have held : HoldsTable (engine.writer table) (initial table)
          (((engine.writer table).insertAll choices (TransactionInsert.batches inserts table)).final
            (state.tables table)) := by
        rcases unmoved txId inserts table remaining found with empty | unmoved
        · exact ((sound.holds table).always_insertAll empty).final
        · exact (sound.holds table).unmoved_insertAll unmoved
      have written := sound.setsTable held
      dsimp only
      split
      · exact written.goesOn found rfl rfl
      · exact written.finishes call
  · exact sound

theorem stopsWrite (sound : Sound engine initial state) {choices : Choices R} {steps : Nat}
    {undone : Nat → Bool} (unmoved : state.StopsUnmoved engine call choices steps undone) :
    Sound engine initial (perform engine state (.stopWrite call choices steps undone)) := by
  rw [perform]
  split
  · next txId inserts table remaining found =>
      obtain ⟨still, removed⟩ := unmoved txId inserts table remaining found
      exact (sound.setsTable ((sound.holds table).interrupted still removed)).finishes call
  · exact sound

/-- A call logs its decision, and returns. -/
theorem logsDecision (sound : Sound engine initial state) {current : TransactionCall R}
    (found : state.calls call = some current) (deciding : current.decides = some txId)
    (decides : body.Decides txId) (appends : state.wal.Appends body outcome)
    (empty : outcome ≠ .failed 0 → body = .commit txId → LogsNoRows engine state.wal.durable txId) :
    Sound engine initial
        { state.finish call with wal := (state.wal.appendEntry body outcome).1 } ∧
      ∀ wal, state.wal.appendEntry body outcome = (wal, true) →
        ∃ entry ∈ wal.durable, entry.body = body := by
  obtain ⟨⟨owner, owned⟩, recorded, holds⟩ := sound
  have held := owned.deciding call current txId found deciding
  have undecided : ∀ entry ∈ state.wal.durable, ¬entry.body.Decides txId := by
    intro entry member decided
    cases held.symm.trans (owned.decided entry member txId decided)
  have first : LogProcess.Decides state.wal.durable body := by
    intro id same entry member rolled_back
    rcases decides with commits | rolls_back
    · obtain rfl := LogEntryBody.commit.inj (commits.symm.trans same)
      exact undecided entry member (.inr rolled_back)
    · cases rolls_back.symm.trans same
  have follows : outcome ≠ .failed 0 → Follows engine state.wal.durable body := by
    intro kept
    rcases decides with rfl | rfl
    · exact ⟨empty kept rfl, fun entry member rolled_back => undecided entry member (.inr rolled_back)⟩
    · exact fun entry member committed => undecided entry member (.inl committed)
  have handed : Owned (Function.update owner txId .decided) (state.setCall call none) := by
    apply owned.transfer .decided
    · intro other different
      rw [held]
      exact ⟨nofun, fun same => different (TransactionOwner.deciding.inj same).symm⟩
    · exact owned.issued txId (by rw [held]; nofun)
    · intro inserts active
      cases held.symm.trans (owned.active txId inserts active)
    · exact undecided
    · nofun
    · nofun
  have decided : ∀ id, body.Decides id → Function.update owner txId .decided id = .decided := by
    intro id same
    have id_eq : id = txId := by
      rcases decides with rfl | rfl <;> rcases same with same | same <;> cases same <;> rfl
    rw [id_eq, Function.update_self]
  have logged := handed.appendEntry recorded.intact appends first decided
  have returned : Recorded engine (state.setCall call none) := recorded.setCall nofun
  have recorded_logged := returned.append appends first follows
  refine ⟨⟨⟨_, logged.issued, logged.entering, logged.active, logged.deciding, logged.decided⟩,
    ⟨recorded_logged.intact, recorded_logged.rowless, recorded_logged.buffering,
      recorded_logged.accepted, recorded_logged.committed, recorded_logged.rolledBack⟩, holds⟩, ?_⟩
  intro wal appended
  exact logged_of_done recorded.intact appends first appended

theorem decides (sound : Sound engine initial state)
    (guarded : Guarded engine state (.decide call outcome)) :
    Sound engine initial (perform engine state (.decide call outcome)) := by
  rw [perform]
  split
  · next txId inserts found =>
      obtain ⟨appends, empty⟩ := guarded.1 txId inserts found
      obtain ⟨logged, done_logged⟩ := sound.logsDecision found rfl (.inl rfl) appends
        fun kept _ => empty kept
      rcases appended : state.wal.appendEntry (.commit txId) outcome with ⟨wal, done⟩
      obtain ⟨⟨owner, owned⟩, recorded, holds⟩ := logged
      rw [appended] at owned recorded
      refine ⟨⟨owner, owned.issued, owned.entering, owned.active, owned.deciding, owned.decided⟩,
        ⟨recorded.intact, recorded.rowless, recorded.buffering, recorded.accepted, ?_,
          recorded.rolledBack⟩, holds⟩
      cases done with
      | false => exact recorded.committed
      | true =>
          intro id member
          rcases List.mem_cons.mp member with rfl | earlier
          · exact done_logged wal appended
          · exact recorded.committed id earlier
  · next txId found =>
      obtain ⟨logged, done_logged⟩ := sound.logsDecision found rfl (.inr rfl) (guarded.2 txId found)
        nofun
      rcases appended : state.wal.appendEntry (.rollback txId) outcome with ⟨wal, done⟩
      obtain ⟨⟨owner, owned⟩, recorded, holds⟩ := logged
      rw [appended] at owned recorded
      refine ⟨⟨owner, owned.issued, owned.entering, owned.active, owned.deciding, owned.decided⟩,
        ⟨recorded.intact, recorded.rowless, recorded.buffering, recorded.accepted,
          recorded.committed, ?_⟩, holds⟩
      cases done with
      | false => exact recorded.rolledBack
      | true =>
          intro id member
          rcases List.mem_cons.mp member with rfl | earlier
          · exact done_logged wal appended
          · exact recorded.rolledBack id earlier
  · exact sound

theorem crashes (sound : Sound engine initial state) :
    Sound engine initial (perform engine state .crash) := by
  obtain ⟨⟨owner, owned⟩, recorded, holds⟩ := sound
  have closed : state.wal.close.Intact := { recorded.intact with next := nofun }
  exact ⟨⟨owner, owned.issued, nofun, nofun, nofun, owned.decided⟩, ⟨closed, recorded.rowless, nofun,
    recorded.accepted, recorded.committed, recorded.rolledBack⟩, holds⟩

theorem recovers (sound : Sound engine initial state) (choices : String → String → Choices R)
    (steps : Nat) : Sound engine initial (perform engine state (.recover choices steps)) := by
  rw [perform]
  split
  · exact sound
  · obtain ⟨⟨owner, owned⟩, recorded, holds⟩ := sound
    have applied := Recovery.always_applyCommittedTransactions recorded.commitsNoRows choices holds steps
    have stopped : Sound engine initial { state with
        tables := (Recovery.applyCommittedTransactions engine.toEngine choices
          state.wal.segments).crash state.tables steps } :=
      ⟨⟨owner, owned.issued, owned.entering, owned.active, owned.deciding, owned.decided⟩,
        ⟨recorded.intact, recorded.rowless, recorded.buffering, recorded.accepted,
          recorded.committed, recorded.rolledBack⟩, applied⟩
    dsimp only
    split
    · split
      · have reopened : (state.wal.perform .reopen).Intact :=
          recorded.intact.perform fun _ _ => trivial
        exact ⟨⟨owner, owned.issued, owned.entering, owned.active, owned.deciding, owned.decided⟩,
          ⟨reopened, recorded.rowless, recorded.buffering, recorded.accepted, recorded.committed,
            recorded.rolledBack⟩, applied⟩
      · exact stopped
    · exact stopped

/-- Every event keeps that nothing was committed but transactions without rows. -/
theorem perform (sound : Sound engine initial state) {event : TransactionEvent R}
    (guarded : Guarded engine state event) :
    Sound engine initial (TransactionManager.perform engine state event) := by
  cases event with
  | begin call txId outcome => exact sound.begins guarded
  | addInsert call txId insert outcome => exact sound.addsInsert guarded
  | commit call txId => exact sound.takes fun _ => rfl
  | rollback call txId => exact sound.takes fun _ => rfl
  | advance call => exact sound.advances call
  | timeout call =>
      rw [TransactionManager.perform]
      split
      · exact sound.finishes call
      · exact sound
  | write call choices => exact sound.writes guarded
  | stopWrite call choices steps undone => exact sound.stopsWrite guarded
  | decide call outcome => exact sound.decides guarded
  | crash => exact sound.crashes
  | recover choices steps => exact sound.recovers choices steps

/-- Then transactions are atomic. -/
theorem atomic (sound : Sound engine initial state) : Atomic engine initial state := by
  obtain ⟨-, recorded, holds⟩ := sound
  intro choices
  refine ⟨state.committed.dedup, List.nodup_dedup _, fun _ => List.mem_dedup.mpr, ?_, ?_⟩
  · intro txId member
    have committed := recorded.committed txId (List.mem_dedup.mp member)
    refine ⟨?_, committed⟩
    intro rolled_back
    obtain ⟨entry, there, body_eq⟩ := recorded.rolledBack txId rolled_back
    exact recorded.rowless.once txId committed entry there body_eq
  · intro table
    have applied := (Recovery.always_applyCommittedTransactions recorded.commitsNoRows choices
      holds).final
    have nothing : (state.committed.dedup.flatMap fun txId => state.acceptedRows txId table) = [] := by
      rw [List.flatMap_eq_nil_iff]
      intro txId member
      exact recorded.acceptedRows_eq_nil (recorded.committed txId (List.mem_dedup.mp member)) table
    refine ⟨initial table, Recovery.readRows_of_holds applied table, ?_⟩
    rw [nothing, List.append_nil]

end Sound

theorem sound_of_guarded {tables : Tables R} (holds : engine.Holds initial tables)
    {events : List (TransactionEvent R)}
    (along : Run.Along (perform engine) (Guarded engine) (new tables) events) :
    Sound engine initial (Run.after (perform engine) (new tables) events) := by
  have sound := Run.invariant (fun (state : TransactionManager R) (event : TransactionEvent R)
    (sound : Sound engine initial state) guarded => sound.perform guarded) (sound_new holds) along
  exact sound

/-- In every run in which appends leave no torn line, no commit moves the pointer of a table and no
transaction with logged rows commits, every transaction is atomic. -/
theorem atomic_of_guarded {tables : Tables R} (holds : engine.Holds initial tables)
    {events : List (TransactionEvent R)}
    (along : Run.Along (perform engine) (Guarded engine) (new tables) events) :
    Atomic engine initial (Run.after (perform engine) (new tables) events) :=
  (sound_of_guarded holds along).atomic

/-! ## A transaction that crashes -/

theorem tables_write {inserts : List (TransactionInsert R)} {table : String} {remaining : List String}
    {choices : Choices R} (found : state.calls call = some (.write txId inserts (table :: remaining))) :
    (perform engine state (.write call choices)).tables = Function.update state.tables table
      (((engine.writer table).insertAll choices (TransactionInsert.batches inserts table)).final
        (state.tables table)) := by
  simp only [perform, found]
  split <;> rfl

theorem wal_write {choices : Choices R} :
    (perform engine state (.write call choices)).wal = state.wal := by
  rw [perform]
  split
  · dsimp only
    split <;> rfl
  · rfl

/-- Tables of integers.  One byte encodes one row. -/
def numbers : TransactionEngine Int where
  toEngine := Recovery.numbers
  writeIpc batch :=
    let bytes := batch.rows.map fun row => UInt8.ofNat row.toNat
    if batch.fits = true ∧ batch.rows = bytes.map fun byte => (byte.toNat : Int) then .ok bytes
    else .error (.other "not a byte")
  readIpc_writeIpc {table batch rowsIpc} written := by
    dsimp only at written
    split at written
    · next same =>
        obtain rfl := Except.ok.inj written
        obtain ⟨fits, rows⟩ := batch
        obtain ⟨rfl, rows_eq⟩ := same
        exact congrArg (fun rows => Except.ok [Batch.mk true rows]) rows_eq.symm
    · cases written

/-- A row for the table. -/
def thirty : TransactionInsert Int :=
  { table := "numbers", batch := { fits := true, rows := [30] } }

/-- A client adds the row to a transaction and commits it, up to the point where the table is written. -/
def commitThirty : List (TransactionEvent Int) :=
  [.recover (fun _ _ => Integers.choices 0) 0, .begin 0 "a" .done, .advance 0,
    .addInsert 0 "a" thirty .done, .advance 0, .commit 0 "a", .advance 0, .advance 0]

theorem guarded_commitThirty :
    Run.Along (perform numbers) (Guarded numbers) (new Recovery.newTables) commitThirty := by
  refine ⟨trivial, ?_, trivial, ?_, trivial, trivial, trivial, trivial, trivial⟩
  · intro lsn _
    exact ⟨.inl rfl, trivial⟩
  · intro rowsIpc _
    refine ⟨?_, ?_⟩
    · intro lsn _
      exact ⟨LogProcess.untorn_append (fun _ => .inl rfl) _ _, trivial⟩
    · intro _ _ entry member
      obtain rfl := List.mem_singleton.mp member
      nofun

/-- Before the table is written, a crash leaves nothing of the transaction. -/
theorem crashBeforeWrite_atomic : Atomic numbers (fun _ => [])
    (Run.after (perform numbers) (new Recovery.newTables) (commitThirty ++ [.crash])) :=
  atomic_of_guarded Recovery.holds_newTables
    (Run.along_append.mpr ⟨guarded_commitThirty, trivial, trivial⟩)

theorem calls_commitThirty :
    (Run.after (perform numbers) (new Recovery.newTables) commitThirty).calls 0 =
      some (.write "a" [thirty] ["numbers"]) := by
  rfl

/-- As long as no transaction is committed, a crash has to leave the rows of the beginning. -/
theorem rows_of_atomic {rows : String → List R} (choices : String → String → Choices R)
    (atomic : Atomic engine initial (perform engine state .crash))
    (holds : engine.Holds rows state.tables)
    (empty : Recovery.CommitsNoRows engine.toEngine state.wal.segments)
    (uncommitted : ∀ txId, ∀ entry ∈ state.wal.durable, entry.body ≠ .commit txId) (table : String) :
    (rows table).Perm (initial table) := by
  obtain ⟨kept, -, -, logged, found⟩ := atomic choices
  have nothing : kept = [] := by
    apply List.eq_nil_iff_forall_not_mem.mpr
    intro txId member
    obtain ⟨-, entry, there, committed⟩ := logged txId member
    exact uncommitted txId entry there committed
  obtain ⟨found_rows, read, perm⟩ := found table
  have applied := (Recovery.always_applyCommittedTransactions empty choices holds).final
  have rows_eq := (Recovery.readRows_of_holds applied table).symm.trans read
  rw [nothing, List.flatMap_nil, List.append_nil] at perm
  rw [Except.ok.inj rows_eq]
  exact perm

/-- After the table is written, a crash leaves the rows of a transaction that is not decided. -/
theorem crashAfterWrite_not_atomic : ¬Atomic numbers (fun _ => [])
    (Run.after (perform numbers) (new Recovery.newTables)
      (commitThirty ++ [.write 0 (Integers.choices 0), .crash])) := by
  intro atomic
  rw [Run.after_append] at atomic
  have sound := sound_of_guarded Recovery.holds_newTables guarded_commitThirty
  have found := calls_commitThirty
  have durable_eq : (Run.after (perform numbers) (new Recovery.newTables) commitThirty).wal.durable =
    [{ lsn := 0, body := .begin "a" }, { lsn := 1, body := .insert "a" "numbers" [30] }] := rfl
  have tables_eq : (Run.after (perform numbers) (new Recovery.newTables) commitThirty).tables =
    Recovery.newTables := rfl
  generalize Run.after (perform numbers) (new Recovery.newTables) commitThirty = ready at *
  rw [Run.after_cons, Run.after_cons, Run.after_nil] at atomic
  obtain ⟨_, after, run, -⟩ := Script.ends_bind.mp ⟨Recovery.insertAll_thirty_twice, rfl⟩
  have stored : (perform numbers ready (.write 0 (Integers.choices 0))).tables =
      Function.update ready.tables "numbers" after := by
    have batches_eq : TransactionInsert.batches [thirty] "numbers" = Recovery.thirty := rfl
    have writer_eq : numbers.writer "numbers" = Integers.writer := rfl
    rw [tables_write found, batches_eq, writer_eq, tables_eq, Script.final, run.2]
  rw [← tables_eq] at run
  have before : HoldsTable Integers.writer [] (ready.tables "numbers") := sound.holds "numbers"
  obtain ⟨added, added_perm, held⟩ := before.insertAll run
  have held_after : HoldsTable (numbers.writer "numbers") added after := held
  have holds := sound.holds.update held_after
  rw [← stored] at holds
  have empty : Recovery.CommitsNoRows numbers.toEngine
      (perform numbers ready (.write 0 (Integers.choices 0))).wal.segments := by
    rw [wal_write]
    exact sound.recorded.commitsNoRows
  have uncommitted : ∀ txId,
      ∀ entry ∈ (perform numbers ready (.write 0 (Integers.choices 0))).wal.durable,
        entry.body ≠ .commit txId := by
    intro txId entry member
    rw [wal_write, durable_eq] at member
    rcases List.mem_cons.mp member with rfl | member
    · rintro ⟨⟩
    · obtain rfl := List.mem_singleton.mp member
      rintro ⟨⟩
  have perm := rows_of_atomic (fun _ _ => Integers.choices 0) atomic holds empty uncommitted "numbers"
  rw [Function.update_self] at perm
  rw [perm.eq_nil] at added_perm
  cases added_perm.symm.eq_nil

end TransactionManager

end IcefallDB
