import IcefallDB.Lib.Family
import IcefallDB.Table.Open
import IcefallDB.Wal.History

/-!
# Applying committed transactions

When a database starts, the insertions of every committed transaction in its log are made once more.
Transactions are applied in the order of their identifiers, the tables of a transaction in the order
of their names, and each table with one commit of its own.  The new row groups have new names, so
rows that are in the table already are not recognized.
-/

namespace IcefallDB

variable {R : Type}

/-- The tables of a database, by name. -/
abbrev Tables (R : Type) : Type :=
  String → TableStorage R

/-- A program on the tables of a database. -/
abbrev TablesProgram (R α : Type) : Type :=
  Script (Tables R) (KeyedEffect String (StorageEffect (File R) (File R))) IcefallDBError α

/-- What the engine takes from Arrow IPC, and the writers it opens. -/
structure Engine (R : Type) where
  /-- The batches of an IPC stream, as a table sees them. -/
  readIpc : String → List UInt8 → Except IcefallDBError (List (Batch R))
  /-- A writer of a table with the schema of the table. -/
  writer : String → Writer R

/-- A logged insertion into a table. -/
structure LoggedInsert (R : Type) where
  txId : String
  table : String
  batches : List (Batch R)

namespace Recovery

/-- Decode the insertions of committed transactions, failing on the first that cannot be read. -/
def decodeInserts (engine : Engine R) (committed : List String) :
    List LogEntry → Except IcefallDBError (List (LoggedInsert R))
  | [] => .ok []
  | entry :: entries =>
      match entry.body with
      | .insert txId table rowsIpc =>
          if txId ∈ committed then do
            let batches ← engine.readIpc table rowsIpc
            let inserts ← decodeInserts engine committed entries
            .ok ({ txId, table, batches } :: inserts)
          else decodeInserts engine committed entries
      | _ => decodeInserts engine committed entries

/-- The tables a transaction inserts into, by name. -/
def tablesOf (inserts : List (LoggedInsert R)) (txId : String) : List String :=
  ((inserts.filter fun insert => insert.txId = txId).map LoggedInsert.table).dedup.insertionSort
    (· ≤ ·)

/-- The batches a transaction inserts into a table, in the order of the log. -/
def batchesOf (inserts : List (LoggedInsert R)) (txId table : String) : List (Batch R) :=
  (inserts.filter fun insert => insert.txId = txId && insert.table = table).flatMap
    LoggedInsert.batches

/-- Make the insertions of a transaction, with one commit for each table. -/
def applyTransaction (engine : Engine R) (choices : String → String → Choices R)
    (inserts : List (LoggedInsert R)) (txId : String) : TablesProgram R Unit :=
  Script.each (fun table => ((engine.writer table).insertAll (choices txId table)
    (batchesOf inserts txId table)).onKey table) (tablesOf inserts txId)

/-- Make the insertions of every committed transaction of a log.  Without a log there are none. -/
def applyCommittedTransactions (engine : Engine R) (choices : String → String → Choices R)
    (segments : Segments) : TablesProgram R Unit :=
  match Wal.entries segments with
  | .error (.notFound _) => pure ()
  | .error failure => Script.fail failure
  | .ok entries => do
      let state ← Script.lift (recover segments)
      let inserts ← Script.lift (decodeInserts engine state.committed entries)
      Script.each (applyTransaction engine choices inserts) state.committed

end Recovery

/-! ## What applying transactions should do -/

/-- The rows of a table, as a reader finds them. -/
def Engine.readRows (engine : Engine R) (tables : Tables R) (table : String) :
    Except IcefallDBError (List R) :=
  (Reader.readTable (engine.writer table).kernel (engine.writer table).schema.schemaId
    (tables table)).2

/-- Every table has the same multiset of rows. -/
def Engine.SameRows (engine : Engine R) (left right : Tables R) : Prop :=
  ∀ table, (engine.readRows left table).map Multiset.ofList =
    (engine.readRows right table).map Multiset.ofList

/-- Every table holds its rows. -/
def Engine.Holds (engine : Engine R) (rows : String → List R) (tables : Tables R) : Prop :=
  ∀ table, HoldsTable (engine.writer table) (rows table) (tables table)

theorem Engine.Holds.update {engine : Engine R} {rows : String → List R} {tables : Tables R}
    (holds : engine.Holds rows tables) {name : String} {here : List R} {state : TableStorage R}
    (held : HoldsTable (engine.writer name) here state) :
    engine.Holds (Function.update rows name here) (Function.update tables name state) := by
  intro table
  by_cases same : table = name
  · subst same
    rw [Function.update_self, Function.update_self]
    exact held
  · rw [Function.update_of_ne same, Function.update_of_ne same]
    exact holds table

namespace Recovery

/-- Rows that a transaction inserts into a table. -/
def insertedRows (inserts : List (LoggedInsert R)) (txId table : String) : List R :=
  batchRows (batchesOf inserts txId table)

/-- The committed transactions in the order of their commit entries. -/
def commitOrder (entries : List LogEntry) : List String :=
  (entries.filterMap fun entry =>
    match entry.body with
    | .commit txId => if txId ∈ (classify entries).committed then some txId else none
    | _ => none).eraseDups

/-- Applying the committed transactions once is as good as applying them again after an application
that stopped anywhere, and it appends their rows in the order in which they committed. -/
structure Idempotent (engine : Engine R) (segments : Segments) (tables : Tables R) : Prop where
  resumed : ∀ once first second steps, engine.SameRows
    ((applyCommittedTransactions engine second segments).final
      ((applyCommittedTransactions engine first segments).crash tables steps))
    ((applyCommittedTransactions engine once segments).final tables)
  ordered : ∀ entries inserts, Wal.entries segments = .ok entries →
    decodeInserts engine (classify entries).committed entries = .ok inserts →
      ∀ choices after, (applyCommittedTransactions engine choices segments).Ends tables () after →
        ∀ table rows, engine.readRows tables table = .ok rows → ∃ chunks,
          List.Forall₂ (fun txId chunk => chunk.Perm (insertedRows inserts txId table))
            (commitOrder entries) chunks ∧
          engine.readRows after table = .ok (rows ++ chunks.flatten)

/-- No committed transaction of the log inserted a row. -/
def CommitsNoRows (engine : Engine R) (segments : Segments) : Prop :=
  ∀ entries inserts, Wal.entries segments = .ok entries →
    decodeInserts engine (classify entries).committed entries = .ok inserts →
      ∀ insert ∈ inserts, batchRows insert.batches = []

/-- The transactions can be applied, and applied again. -/
def AppliesTwice (engine : Engine R) (segments : Segments) (tables : Tables R) : Prop :=
  ∃ first second middle after,
    (applyCommittedTransactions engine first segments).Ends tables () middle ∧
      (applyCommittedTransactions engine second segments).Ends middle () after

end Recovery

/-! ## What applying transactions does -/

namespace Recovery

variable {engine : Engine R} {choices : String → String → Choices R} {segments : Segments}
  {entries : List LogEntry} {inserts : List (LoggedInsert R)} {committed : List String}
  {tables after : Tables R} {rows : String → List R}

theorem mem_tablesOf {txId table : String} :
    table ∈ tablesOf inserts txId ↔ ∃ insert ∈ inserts, insert.txId = txId ∧ insert.table = table := by
  simp [tablesOf, and_assoc]

/-- A decoded insertion is one that is logged for a committed transaction. -/
theorem logged_of_decodeInserts
    (decoded : decodeInserts engine committed entries = .ok inserts) :
    ∀ insert ∈ inserts, insert.txId ∈ committed ∧ ∃ entry ∈ entries, ∃ rowsIpc,
      entry.body = .insert insert.txId insert.table rowsIpc ∧
        engine.readIpc insert.table rowsIpc = .ok insert.batches := by
  induction entries generalizing inserts with
  | nil =>
      obtain rfl := Except.ok.inj decoded
      exact fun _ => nofun
  | cons entry entries ih =>
      have later : ∀ {rest}, decodeInserts engine committed entries = .ok rest → ∀ insert ∈ rest,
          insert.txId ∈ committed ∧ ∃ other ∈ entry :: entries, ∃ rowsIpc,
            other.body = .insert insert.txId insert.table rowsIpc ∧
              engine.readIpc insert.table rowsIpc = .ok insert.batches := by
        intro rest decoded_rest insert listed
        obtain ⟨member, other, there, logged⟩ := ih decoded_rest insert listed
        exact ⟨member, other, List.mem_cons_of_mem _ there, logged⟩
      rw [decodeInserts] at decoded
      split at decoded
      · next txId table rowsIpc body_eq =>
          split at decoded
          · next member =>
              obtain ⟨batches, read, decoded⟩ := Script.except_bind_eq_ok.mp decoded
              obtain ⟨rest, decoded_rest, same⟩ := Script.except_bind_eq_ok.mp decoded
              obtain rfl := Except.ok.inj same
              intro insert listed
              rcases List.mem_cons.mp listed with rfl | listed
              · exact ⟨member, entry, List.mem_cons_self, rowsIpc, body_eq, read⟩
              · exact later decoded_rest insert listed
          · exact later decoded
      · exact later decoded

/-- Inserting into different tables adds to each the rows meant for it. -/
theorem ends_each_insertAll {names : List String} (distinct : names.Nodup)
    {batches : String → List (Batch R)} {choices : String → Choices R} (holds : engine.Holds rows tables)
    (run : (Script.each (fun table => ((engine.writer table).insertAll (choices table)
      (batches table)).onKey table) names).Ends tables () after) :
    ∃ added : String → List R, engine.Holds (fun table => rows table ++ added table) after ∧
      ∀ table, if table ∈ names then (added table).Perm (batchRows (batches table))
        else added table = [] := by
  induction names generalizing tables rows with
  | nil =>
      obtain rfl := Script.ends_each_nil.mp run
      refine ⟨fun _ => [], ?_, by simp⟩
      simpa using holds
  | cons name names ih =>
      obtain ⟨fresh, distinct⟩ := List.nodup_cons.mp distinct
      obtain ⟨middle, first, rest⟩ := Script.ends_each_cons.mp run
      obtain ⟨state, inserted, rfl⟩ := Script.ends_onKey.mp first
      obtain ⟨here, here_perm, held⟩ := (holds name).insertAll inserted
      obtain ⟨added, holds_after, added_perm⟩ := ih distinct (holds.update held) rest
      refine ⟨Function.update added name here, ?_, ?_⟩
      · intro table
        have held_after : HoldsTable (engine.writer table)
            (Function.update rows name (rows name ++ here) table ++ added table) (after table) :=
          holds_after table
        change HoldsTable _ (rows table ++ Function.update added name here table) _
        by_cases same : table = name
        · subst same
          have nothing := added_perm table
          rw [if_neg fresh] at nothing
          rw [Function.update_self, nothing, List.append_nil] at held_after
          rwa [Function.update_self]
        · rwa [Function.update_of_ne same] at held_after ⊢
      · intro table
        by_cases same : table = name
        · subst same
          rw [if_pos List.mem_cons_self, Function.update_self]
          exact here_perm
        · rw [Function.update_of_ne same]
          simp only [List.mem_cons, same, false_or]
          exact added_perm table

/-- A complete transaction adds its rows to each table. -/
theorem ends_applyTransaction {txId : String} (holds : engine.Holds rows tables)
    (run : (applyTransaction engine choices inserts txId).Ends tables () after) :
    ∃ added : String → List R, engine.Holds (fun table => rows table ++ added table) after ∧
      ∀ table, (added table).Perm (insertedRows inserts txId table) := by
  have distinct : (tablesOf inserts txId).Nodup :=
    (List.perm_insertionSort _ _).nodup_iff.mpr (List.nodup_dedup _)
  obtain ⟨added, holds_after, added_perm⟩ := ends_each_insertAll distinct holds run
  refine ⟨added, holds_after, fun table => ?_⟩
  have perm := added_perm table
  split at perm
  · exact perm
  · next absent =>
      have nothing : insertedRows inserts txId table = [] := by
        have none : (inserts.filter fun insert => insert.txId = txId && insert.table = table) = [] := by
          rw [List.filter_eq_nil_iff]
          intro insert member matches_both
          rw [Bool.and_eq_true, decide_eq_true_iff, decide_eq_true_iff] at matches_both
          exact absent (mem_tablesOf.mpr ⟨insert, member, matches_both⟩)
        rw [insertedRows, batchesOf, none]
        rfl
      rw [perm, nothing]

/-- Transactions that are applied one after the other add their rows one after the other. -/
theorem ends_each_applyTransaction {txIds : List String} (holds : engine.Holds rows tables)
    (run : (Script.each (applyTransaction engine choices inserts) txIds).Ends tables () after) :
    ∃ chunks : String → List (List R),
      engine.Holds (fun table => rows table ++ (chunks table).flatten) after ∧
        ∀ table, List.Forall₂ (fun txId chunk => chunk.Perm (insertedRows inserts txId table)) txIds
          (chunks table) := by
  induction txIds generalizing tables rows with
  | nil =>
      obtain rfl := Script.ends_each_nil.mp run
      refine ⟨fun _ => [], ?_, fun _ => .nil⟩
      simpa using holds
  | cons txId txIds ih =>
      obtain ⟨middle, first, rest⟩ := Script.ends_each_cons.mp run
      obtain ⟨added, holds_middle, added_perm⟩ := ends_applyTransaction holds first
      obtain ⟨chunks, holds_after, chunks_perm⟩ := ih holds_middle rest
      refine ⟨fun table => added table :: chunks table, ?_, ?_⟩
      · intro table
        change HoldsTable _ (rows table ++ (added table :: chunks table).flatten) _
        rw [List.flatten_cons, ← List.append_assoc]
        exact holds_after table
      · intro table
        exact .cons (added_perm table) (chunks_perm table)

/-! ## Applying without rows -/

theorem always_applyTransaction (empty : ∀ insert ∈ inserts, batchRows insert.batches = [])
    (holds : engine.Holds rows tables) (txId : String) :
    (applyTransaction engine choices inserts txId).Always (engine.Holds rows) tables := by
  apply Script.always_each _ holds
  intro table _ before held
  apply Script.always_onKey (fun name => HoldsTable (engine.writer name) (rows name)) held
  apply (held table).always_insertAll
  rw [batchRows, List.flatMap_eq_nil_iff]
  intro batch member
  obtain ⟨insert, listed, batch_mem⟩ := List.mem_flatMap.mp member
  exact List.flatMap_eq_nil_iff.mp (empty insert (List.mem_of_mem_filter listed)) batch batch_mem

theorem recover_of_entries (entries_eq : Wal.entries segments = .ok entries) :
    recover segments = .ok (classify entries) := by
  rw [recover, entries_eq]
  rfl

/-- Applying transactions without rows leaves the rows as they were, wherever it stops. -/
theorem always_applyCommittedTransactions (empty : CommitsNoRows engine segments)
    (choices : String → String → Choices R) (holds : engine.Holds rows tables) :
    (applyCommittedTransactions engine choices segments).Always (engine.Holds rows) tables := by
  rw [applyCommittedTransactions]
  split
  · exact Script.always_pure.mpr holds
  · exact Script.always_fail.mpr holds
  · next entries entries_eq =>
      rw [recover_of_entries entries_eq]
      apply (Script.emits_lift _).always_bind holds
      intro state classified
      obtain ⟨classified, -⟩ := Script.ends_lift.mp classified
      obtain rfl := Except.ok.inj classified
      apply (Script.emits_lift _).always_bind holds
      intro inserts decoded
      obtain ⟨decoded, -⟩ := Script.ends_lift.mp decoded
      apply Script.always_each _ holds
      intro txId _ before held
      exact always_applyTransaction (empty entries inserts entries_eq decoded) held txId

/-- A complete application adds the rows of each committed transaction. -/
theorem ends_applyCommittedTransactions (entries_eq : Wal.entries segments = .ok entries)
    (decoded : decodeInserts engine (classify entries).committed entries = .ok inserts)
    (holds : engine.Holds rows tables)
    (run : (applyCommittedTransactions engine choices segments).Ends tables () after) :
    ∃ chunks : String → List (List R),
      engine.Holds (fun table => rows table ++ (chunks table).flatten) after ∧
        ∀ table, List.Forall₂ (fun txId chunk => chunk.Perm (insertedRows inserts txId table))
          (classify entries).committed (chunks table) := by
  rw [applyCommittedTransactions, entries_eq, recover_of_entries entries_eq] at run
  obtain ⟨state, _, classified, run⟩ := Script.ends_bind.mp run
  obtain ⟨state_eq, rfl⟩ := Script.ends_lift.mp classified
  obtain rfl := Except.ok.inj state_eq
  obtain ⟨_, _, lifted, run⟩ := Script.ends_bind.mp run
  obtain ⟨lifted_eq, rfl⟩ := Script.ends_lift.mp lifted
  obtain rfl := Except.ok.inj (decoded.symm.trans lifted_eq)
  exact ends_each_applyTransaction holds run

/-! ## When applying transactions is idempotent -/

theorem readRows_of_holds (holds : engine.Holds rows tables) (table : String) :
    engine.readRows tables table = .ok (rows table) :=
  (holds table).reads

/-- Without rows there is nothing to apply twice, or in the wrong order. -/
theorem idempotent_of_commitsNoRows (holds : engine.Holds rows tables)
    (empty : CommitsNoRows engine segments) : Idempotent engine segments tables where
  resumed once first second steps table := by
    have crashed : engine.Holds rows _ :=
      always_applyCommittedTransactions empty first holds steps
    have again : engine.Holds rows _ :=
      (always_applyCommittedTransactions empty second crashed).final
    have at_once : engine.Holds rows _ :=
      (always_applyCommittedTransactions empty once holds).final
    rw [readRows_of_holds again, readRows_of_holds at_once]
  ordered entries inserts entries_eq decoded choices after run table found read := by
    refine ⟨(commitOrder entries).map fun _ => [], ?_, ?_⟩
    · rw [List.forall₂_map_right_iff, List.forall₂_same]
      intro txId _
      rw [insertedRows, batchesOf, batchRows, List.flatMap_assoc, List.flatMap_eq_nil_iff.mpr]
      intro insert listed
      exact empty entries inserts entries_eq decoded insert (List.mem_of_mem_filter listed)
    · have holds_after := (always_applyCommittedTransactions empty choices holds).ends run
      rw [readRows_of_holds holds] at read
      rw [readRows_of_holds holds_after, List.flatten_eq_nil_iff.mpr, List.append_nil]
      · exact read
      · intro chunk member
        obtain ⟨_, _, rfl⟩ := List.mem_map.mp member
        rfl

/-- Transactions that add nothing have no rows. -/
theorem insertedRows_eq_nil {txIds : List String} {table : String} {chunks : List (List R)}
    (added : List.Forall₂ (fun txId chunk => chunk.Perm (insertedRows inserts txId table)) txIds chunks)
    (nothing : chunks.flatten = []) : ∀ txId ∈ txIds, insertedRows inserts txId table = [] := by
  induction added with
  | nil => exact fun _ => nofun
  | cons first _ ih =>
      rw [List.flatten_cons, List.append_eq_nil_iff] at nothing
      obtain ⟨rfl, rest⟩ := nothing
      intro txId member
      rcases List.mem_cons.mp member with rfl | later
      · exact first.symm.eq_nil
      · exact ih rest txId later

/-- What is idempotent and can be applied twice has no rows. -/
theorem commitsNoRows_of_idempotent (holds : engine.Holds rows tables)
    {first second : String → String → Choices R} {middle : Tables R}
    (once : (applyCommittedTransactions engine first segments).Ends tables () middle)
    (twice : (applyCommittedTransactions engine second segments).Ends middle () after)
    (idempotent : Idempotent engine segments tables) : CommitsNoRows engine segments := by
  have same : engine.SameRows after middle := by
    have resumed := idempotent.resumed first first second
      (applyCommittedTransactions engine first segments tables).1.length
    rwa [Script.crash, List.take_length, once.2, Script.final, twice.2, Script.final, once.2]
      at resumed
  intro entries inserts entries_eq decoded insert member
  obtain ⟨_, holds_middle, -⟩ := ends_applyCommittedTransactions entries_eq decoded holds once
  obtain ⟨chunks, holds_after, chunks_perm⟩ :=
    ends_applyCommittedTransactions entries_eq decoded holds_middle twice
  have rows_eq := same insert.table
  rw [readRows_of_holds holds_after, readRows_of_holds holds_middle] at rows_eq
  have nothing : (chunks insert.table).flatten = [] := by
    have perm := Multiset.coe_eq_coe.mp (Except.ok.inj rows_eq)
    have length_eq := perm.length_eq
    rw [List.length_append] at length_eq
    apply List.length_eq_zero_iff.mp
    omega
  have empty := insertedRows_eq_nil (chunks_perm insert.table) nothing insert.txId
    (logged_of_decodeInserts decoded insert member).1
  have own : insert ∈ inserts.filter fun other =>
      other.txId = insert.txId && other.table = insert.table := by
    simp [member]
  rw [insertedRows, batchesOf, batchRows, List.flatMap_assoc] at empty
  exact List.flatMap_eq_nil_iff.mp empty insert own

/-- Applying the committed transactions of a log is idempotent, and follows the order of the commits,
when none of them inserted a row.  Where they can be applied twice, only then. -/
theorem idempotent_iff_commitsNoRows (holds : engine.Holds rows tables) :
    (CommitsNoRows engine segments → Idempotent engine segments tables) ∧
      (AppliesTwice engine segments tables → Idempotent engine segments tables →
        CommitsNoRows engine segments) := by
  constructor
  · exact idempotent_of_commitsNoRows holds
  · rintro ⟨first, second, middle, after, once, twice⟩ idempotent
    exact commitsNoRows_of_idempotent holds once twice idempotent

/-! ## A logged insertion -/

/-- Tables of integers.  One byte encodes one row. -/
def numbers : Engine Int where
  readIpc _ bytes := .ok [{ fits := true, rows := bytes.map fun byte => (byte.toNat : Int) }]
  writer _ := Integers.writer

/-- New tables of integers. -/
def newTables : Tables Int :=
  fun _ => (Ingestion.new Ingestion.numbers).storage

theorem holds_newTables : numbers.Holds (fun _ => []) newTables := by
  intro table
  obtain ⟨⟨latestSeq, current, contains⟩, -⟩ := Ingestion.holds_new Ingestion.numbers
  exact .inl ⟨rfl, latestSeq, current, contains⟩

/-- A transaction inserts rows into a table and commits. -/
def insertion (rows : List UInt8) : List LogEntry :=
  [{ lsn := 0, body := .begin "a" }, { lsn := 1, body := .insert "a" "numbers" rows },
    { lsn := 2, body := .commit "a" }]

/-- The log in which that is recorded. -/
def insertionLog (rows : List UInt8) : Segments :=
  (Run.after LogProcess.perform LogProcess.new
    (.reopen :: (insertion rows).map fun entry => .append entry.body)).segments

/-- Appends to segments without torn lines are guarded if they commit nothing that is rolled back. -/
theorem along_appends {process : LogProcess} {bodies : List LogEntryBody}
    (untorn : ∀ segment, LogProcess.Untorn (Wal.segmentBytes process.segments segment))
    (decided : ∀ txId, .commit txId ∈ bodies → .rollback txId ∉ bodies ∧
      ∀ entry ∈ process.durable, entry.body ≠ .rollback txId) :
    Run.Along LogProcess.perform LogProcess.Guarded process (bodies.map .append) := by
  induction bodies generalizing process with
  | nil => trivial
  | cons body bodies ih =>
      refine ⟨fun lsn _ => ⟨untorn _, ?_⟩, ih ?_ ?_⟩
      · rintro txId rfl
        exact (decided txId List.mem_cons_self).2
      · intro segment
        unfold LogProcess.perform
        dsimp only
        split
        · exact untorn segment
        · exact LogProcess.untorn_append untorn _ segment
      · intro txId later
        obtain ⟨absent, before⟩ := decided txId (List.mem_cons_of_mem body later)
        refine ⟨fun found => absent (List.mem_cons_of_mem body found), ?_⟩
        unfold LogProcess.perform
        dsimp only
        split
        · exact before
        · intro entry member
          rcases List.mem_append.mp member with old | new
          · exact before entry old
          · obtain rfl := List.mem_singleton.mp new
            exact fun same => absent (same ▸ List.mem_cons_self)

/-- A log that was opened and appended to can be read. -/
theorem intact_appends (bodies : List LogEntryBody)
    (decided : ∀ txId, .commit txId ∈ bodies → .rollback txId ∉ bodies) :
    (Run.after LogProcess.perform LogProcess.new (.reopen :: bodies.map .append)).Intact :=
  Run.invariant (fun (process : LogProcess) _ (intact : process.Intact) guarded =>
    intact.perform guarded) LogProcess.Intact.new
      ⟨fun _ _ => trivial, along_appends (fun _ => .inl rfl) fun txId committed =>
        ⟨decided txId committed, fun _ member => absurd member List.not_mem_nil⟩⟩

theorem entries_insertionLog (rows : List UInt8) :
    Wal.entries (insertionLog rows) = .ok (insertion rows) := by
  have intact := intact_appends ((insertion rows).map LogEntry.body) (by simp [insertion])
  rw [List.map_map] at intact
  exact LogProcess.entries_of_intact intact nofun

theorem committed_insertion (rows : List UInt8) : (classify (insertion rows)).committed = ["a"] := by
  simp [classify, txIds, insertion, LogEntry.txId, LogEntryBody.txId, decision, entryDecision,
    List.findSome?]

/-- An empty insertion that commits, and one of a row that is rolled back. -/
def rolledBack : List LogEntry :=
  insertion [] ++ [{ lsn := 3, body := .begin "b" }, { lsn := 4, body := .insert "b" "numbers" [30] },
    { lsn := 5, body := .rollback "b" }]

/-- The log in which that is recorded. -/
def rolledBackLog : Segments :=
  (Run.after LogProcess.perform LogProcess.new
    (.reopen :: rolledBack.map fun entry => .append entry.body)).segments

/-- Rows that are rolled back are inserted by no application. -/
theorem rolledBack_idempotent : Idempotent numbers rolledBackLog newTables := by
  have intact := intact_appends (rolledBack.map LogEntry.body) (by simp [rolledBack, insertion])
  rw [List.map_map] at intact
  have logged : Wal.entries rolledBackLog = .ok rolledBack :=
    LogProcess.entries_of_intact intact nofun
  have committed : (classify rolledBack).committed = ["a"] := by
    simp [classify, txIds, rolledBack, insertion, LogEntry.txId, LogEntryBody.txId, decision,
      entryDecision, List.findSome?]
  apply (idempotent_iff_commitsNoRows holds_newTables).1
  intro entries inserts entries_eq decoded insert member
  rw [logged] at entries_eq
  obtain rfl := Except.ok.inj entries_eq
  rw [committed] at decoded
  obtain rfl := Except.ok.inj decoded
  obtain rfl := List.mem_singleton.mp member
  rfl

/-- The transaction is applied by inserting its batch. -/
theorem ends_insertionLog (rows : List UInt8) (choices : Choices Int) {tables : Tables Int}
    {before state : TableStorage Int} (at_start : tables "numbers" = before)
    (run : (Integers.writer.insertAll choices
      [{ fits := true, rows := rows.map fun byte => (byte.toNat : Int) }]).Ends before () state) :
    (applyCommittedTransactions numbers (fun _ _ => choices) (insertionLog rows)).Ends tables ()
      (Function.update tables "numbers" state) := by
  rw [applyCommittedTransactions, entries_insertionLog, recover_of_entries (entries_insertionLog rows)]
  apply Script.ends_bind.mpr ⟨_, tables, Script.ends_lift.mpr ⟨rfl, rfl⟩, _⟩
  rw [committed_insertion]
  apply Script.ends_bind.mpr ⟨_, tables, Script.ends_lift.mpr ⟨rfl, rfl⟩, _⟩
  apply Script.ends_each_cons.mpr ⟨_, _, Script.ends_each_nil.mpr rfl⟩
  apply Script.ends_each_cons.mpr ⟨_, _, Script.ends_each_nil.mpr rfl⟩
  exact Script.ends_onKey.mpr ⟨state, at_start ▸ run, rfl⟩

/-- The batch of one row. -/
def thirty : List (Batch Int) :=
  [{ fits := true, rows := [30] }]

theorem insertAll_thirty_twice :
    ((Integers.writer.insertAll (Integers.choices 0) thirty >>= fun _ =>
      Integers.writer.insertAll (Integers.choices 1) thirty) (newTables "numbers")).2 = .ok () := by
  decide +kernel

/-- Applied twice, the transaction inserts its row twice. -/
theorem insertion_not_idempotent : ¬Idempotent numbers (insertionLog [30]) newTables := by
  intro idempotent
  obtain ⟨_, middle, first, second⟩ := Script.ends_bind.mp ⟨insertAll_thirty_twice, rfl⟩
  have once := ends_insertionLog [30] (Integers.choices 0) rfl first
  have updated : Function.update newTables "numbers" middle "numbers" = middle :=
    Function.update_self ..
  have twice := ends_insertionLog [30] (Integers.choices 1) updated second
  have empty := commitsNoRows_of_idempotent holds_newTables once twice idempotent
  cases empty (insertion [30]) [{ txId := "a", table := "numbers", batches := thirty }]
    (entries_insertionLog [30]) (by rw [committed_insertion]; rfl) _ (List.mem_singleton.mpr rfl)

end Recovery

end IcefallDB
