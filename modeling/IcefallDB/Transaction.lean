import IcefallDB.Recovery.Apply

/-!
# The transaction manager

Clients begin transactions, add batches to them, commit them and roll them back.  Each call is made in
several steps, and the steps of different calls interleave.  Beginning, adding and deciding append to
the log; a commit locks its tables, commits to them one after the other, and logs its decision last.
Any step can run into a storage failure, and the process can crash between steps and recover.
-/

namespace IcefallDB

variable {R : Type}

/-- An engine that also writes Arrow IPC. -/
structure TransactionEngine (R : Type) extends Engine R where
  writeIpc : Batch R → Except IcefallDBError (List UInt8)
  readIpc_writeIpc : ∀ {table batch rowsIpc}, writeIpc batch = .ok rowsIpc →
    readIpc table rowsIpc = .ok [batch]

/-! ## Appending to the log -/

/-- How an append ends: a failed one leaves the first bytes of its line. -/
inductive AppendOutcome
  | done
  | failed (kept : Nat)

namespace LogProcess

/-- Append an entry.  Returns whether the append succeeded; nothing is appended to a closed log. -/
def appendEntry (process : LogProcess) (body : LogEntryBody) : AppendOutcome → LogProcess × Bool
  | .done => (process.perform (.append body), process.nextLsn.isSome)
  | .failed kept =>
      match process.nextLsn with
      | none => (process, false)
      | some lsn =>
          ({ process.perform (.crash body kept) with nextLsn := some (lsn + 1) }, false)

/-- Close the log. -/
def close (process : LogProcess) : LogProcess :=
  { process with nextLsn := none }

end LogProcess

/-! ## Calls -/

/-- A batch that a transaction inserts into a table. -/
structure TransactionInsert (R : Type) where
  table : String
  batch : Batch R

/-- A call of a client, by the step that comes next. -/
inductive TransactionCall (R : Type)
  /-- Enter a new transaction that is logged. -/
  | enter (txId : String)
  /-- Buffer a batch that is logged. -/
  | buffer (txId : String) (insert : TransactionInsert R)
  /-- Lock the remaining tables. -/
  | lock (txId : String) (inserts : List (TransactionInsert R)) (remaining : List String)
  /-- Commit to the remaining tables, and log the commit. -/
  | write (txId : String) (inserts : List (TransactionInsert R)) (remaining : List String)
  /-- Log the rollback. -/
  | rollback (txId : String)

namespace TransactionInsert

/-- The tables of a transaction, by name. -/
def tables (inserts : List (TransactionInsert R)) : List String :=
  (inserts.map table).dedup.insertionSort (· ≤ ·)

/-- The batches of a transaction for a table, in the order in which they were added. -/
def batches (inserts : List (TransactionInsert R)) (name : String) : List (Batch R) :=
  (inserts.filter fun insert => insert.table = name).map batch

end TransactionInsert

/-- A database with the transaction manager that works on it. -/
structure TransactionManager (R : Type) where
  wal : LogProcess
  tables : Tables R
  /-- Identifiers of transactions, which do not repeat. -/
  issued : List String
  /-- Batches of the active transactions. -/
  transactions : String → Option (List (TransactionInsert R))
  /-- Calls in progress. -/
  calls : Nat → Option (TransactionCall R)
  /-- Calls that hold the writer locks of tables. -/
  locks : String → Option Nat
  /-- Batches whose insertion succeeded. -/
  accepted : List (String × TransactionInsert R)
  /-- Transactions whose commit succeeded. -/
  committed : List String
  /-- Transactions whose rollback succeeded. -/
  rolledBack : List String

/-- What can happen to the transaction manager. -/
inductive TransactionEvent (R : Type)
  | begin (call : Nat) (txId : String) (outcome : AppendOutcome)
  | addInsert (call : Nat) (txId : String) (insert : TransactionInsert R) (outcome : AppendOutcome)
  | commit (call : Nat) (txId : String)
  | rollback (call : Nat) (txId : String)
  /-- A call enters a transaction, buffers a batch or locks a table. -/
  | advance (call : Nat)
  /-- A call gives up waiting for a lock. -/
  | timeout (call : Nat)
  /-- A call commits to its next table. -/
  | write (call : Nat) (choices : Choices R)
  /-- The storage fails after some effects of that, and then undoes some of what is rolled back. -/
  | stopWrite (call : Nat) (choices : Choices R) (steps : Nat) (undone : Nat → Bool)
  /-- A call logs its decision. -/
  | decide (call : Nat) (outcome : AppendOutcome)
  | crash
  /-- The process starts again and applies the committed transactions, until it crashes after some
  effects or is done. -/
  | recover (choices : String → String → Choices R) (steps : Nat)

namespace TransactionManager

/-- A database whose log was never written, before the process starts. -/
def new (tables : Tables R) : TransactionManager R where
  wal := LogProcess.new
  tables
  issued := []
  transactions _ := none
  calls _ := none
  locks _ := none
  accepted := []
  committed := []
  rolledBack := []

/-- A call proceeds. -/
def setCall (state : TransactionManager R) (call : Nat) (next : Option (TransactionCall R)) :
    TransactionManager R :=
  { state with calls := Function.update state.calls call next }

/-- A call returns and releases its locks. -/
def finish (state : TransactionManager R) (call : Nat) : TransactionManager R :=
  { state.setCall call none with
    locks := fun table => if state.locks table = some call then none else state.locks table }

/-- A transaction becomes active, or no longer is. -/
def setTransaction (state : TransactionManager R) (txId : String)
    (inserts : Option (List (TransactionInsert R))) : TransactionManager R :=
  { state with transactions := Function.update state.transactions txId inserts }

/-- A table changes. -/
def setTable (state : TransactionManager R) (table : String) (storage : TableStorage R) :
    TransactionManager R :=
  { state with tables := Function.update state.tables table storage }

/-- Take a transaction out of the active ones, to decide it. -/
def take (state : TransactionManager R) (call : Nat) (txId : String)
    (next : List (TransactionInsert R) → TransactionCall R) : TransactionManager R :=
  match state.calls call, state.transactions txId with
  | none, some inserts => (state.setTransaction txId none).setCall call (some (next inserts))
  | _, _ => state

/-- The next step of a call that neither appends nor writes. -/
def advance (state : TransactionManager R) (call : Nat) : TransactionManager R :=
  match state.calls call with
  | some (.enter txId) => (state.setTransaction txId (some [])).setCall call none
  | some (.buffer txId insert) =>
      match state.transactions txId with
      | none => state.setCall call none
      | some inserts =>
          { (state.setTransaction txId (some (inserts ++ [insert]))).setCall call none with
            accepted := state.accepted ++ [(txId, insert)] }
  | some (.lock txId inserts (table :: remaining)) =>
      if state.locks table = none then
        { state.setCall call (some (.lock txId inserts remaining)) with
          locks := Function.update state.locks table (some call) }
      else state
  | some (.lock txId inserts []) =>
      state.setCall call (some (.write txId inserts (TransactionInsert.tables inserts)))
  | _ => state

/-- Let an event happen.  Events that do not fit the state change nothing. -/
def perform (engine : TransactionEngine R) (state : TransactionManager R) :
    TransactionEvent R → TransactionManager R
  | .begin call txId outcome =>
      if state.calls call = none ∧ txId ∉ state.issued then
        let (wal, done) := state.wal.appendEntry (.begin txId) outcome
        let begun := { state with wal, issued := txId :: state.issued }
        if done then begun.setCall call (some (.enter txId)) else begun
      else state
  | .addInsert call txId insert outcome =>
      match state.calls call, engine.writeIpc insert.batch with
      | none, .ok rowsIpc =>
          let (wal, done) := state.wal.appendEntry (.insert txId insert.table rowsIpc) outcome
          if done then { state with wal }.setCall call (some (.buffer txId insert))
          else { state with wal }
      | _, _ => state
  | .commit call txId =>
      state.take call txId fun inserts => .lock txId inserts (TransactionInsert.tables inserts)
  | .rollback call txId => state.take call txId fun _ => .rollback txId
  | .advance call => state.advance call
  | .timeout call =>
      match state.calls call with
      | some (.lock _ _ (_ :: _)) => state.finish call
      | _ => state
  | .write call choices =>
      match state.calls call with
      | some (.write txId inserts (table :: remaining)) =>
          let insertion := (engine.writer table).insertAll choices
            (TransactionInsert.batches inserts table)
          let written := state.setTable table (insertion.final (state.tables table))
          match (insertion (state.tables table)).2 with
          | .ok _ => written.setCall call (some (.write txId inserts remaining))
          | .error _ => written.finish call
      | _ => state
  | .stopWrite call choices steps undone =>
      match state.calls call with
      | some (.write _ inserts (table :: _)) =>
          let effects := (engine.writer table).interrupted choices
            (TransactionInsert.batches inserts table) steps undone (state.tables table)
          (state.setTable table (Script.performAll effects (state.tables table))).finish call
      | _ => state
  | .decide call outcome =>
      match state.calls call with
      | some (.write txId _ []) =>
          let (wal, done) := state.wal.appendEntry (.commit txId) outcome
          let committed := if done then txId :: state.committed else state.committed
          { state.finish call with wal, committed }
      | some (.rollback txId) =>
          let (wal, done) := state.wal.appendEntry (.rollback txId) outcome
          let rolledBack := if done then txId :: state.rolledBack else state.rolledBack
          { state.finish call with wal, rolledBack }
      | _ => state
  | .crash =>
      { state with
        wal := state.wal.close
        transactions := fun _ => none
        calls := fun _ => none
        locks := fun _ => none }
  | .recover choices steps =>
      match state.wal.nextLsn with
      | some _ => state
      | none =>
          let application := Recovery.applyCommittedTransactions engine.toEngine choices
            state.wal.segments
          let recovered := { state with tables := application.crash state.tables steps }
          match (application state.tables).2 with
          | .ok _ =>
              if (application state.tables).1.length ≤ steps then
                { recovered with wal := state.wal.perform .reopen }
              else recovered
          | .error _ => recovered

/-! ## Atomicity -/

/-- Rows that were accepted into a table for a transaction. -/
def acceptedRows (state : TransactionManager R) (txId table : String) : List R :=
  (state.accepted.filter fun insert => insert.1 = txId && insert.2.table = table).flatMap
    fun insert => insert.2.batch.rows

/-- Once the process has crashed and recovered, the tables hold the accepted rows of some
transactions beside what they held in the beginning: of every transaction whose commit succeeded,
of none whose rollback succeeded, and of none whose commit is not logged. -/
def Atomic (engine : TransactionEngine R) (initial : String → List R)
    (state : TransactionManager R) : Prop :=
  ∀ choices, ∃ kept : List String, kept.Nodup ∧
    (∀ txId ∈ state.committed, txId ∈ kept) ∧
    (∀ txId ∈ kept, txId ∉ state.rolledBack ∧
      ∃ entry ∈ state.wal.durable, entry.body = .commit txId) ∧
    ∀ table, ∃ rows, engine.readRows
      ((Recovery.applyCommittedTransactions engine.toEngine choices state.wal.segments).final
        state.tables) table = .ok rows ∧
      rows.Perm (initial table ++ kept.flatMap fun txId => state.acceptedRows txId table)

end TransactionManager

end IcefallDB
