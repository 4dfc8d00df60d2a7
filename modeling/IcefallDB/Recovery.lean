import IcefallDB.Wal
import Mathlib.Data.List.Dedup
import Mathlib.Data.List.Sort

/-!
# Classifying transactions

Recovery groups the entries of the transaction log by transaction.  The first entry of a transaction
that commits it or rolls it back decides it.
-/

namespace IcefallDB

/-- What became of the transactions of a log. -/
structure RecoveryState where
  committed : List String
  aborted : List String
  undecided : List String
  deriving DecidableEq

namespace Recovery

/-- How a transaction was decided. -/
inductive Decision
  | committed
  | aborted
  deriving DecidableEq

/-- The decision that an entry records about its transaction. -/
def entryDecision (entry : LogEntry) : Option Decision :=
  match entry.body with
  | .commit _ => some .committed
  | .rollback _ => some .aborted
  | _ => none

/-- The decision about a transaction: the first one among its entries. -/
def decision (entries : List LogEntry) (txId : String) : Option Decision :=
  (entries.filter fun entry => entry.txId = txId).findSome? entryDecision

/-- The transactions of a log, by identifier. -/
def txIds (entries : List LogEntry) : List String :=
  (entries.map LogEntry.txId).dedup.insertionSort (· ≤ ·)

/-- Classify the transactions of a log. -/
def classify (entries : List LogEntry) : RecoveryState where
  committed := (txIds entries).filter fun txId => decision entries txId = some .committed
  aborted := (txIds entries).filter fun txId => decision entries txId = some .aborted
  undecided := (txIds entries).filter fun txId => decision entries txId = none

/-- Read the log and classify its transactions. -/
def recover (segments : Segments) : Except IcefallDBError RecoveryState := do
  let entries ← Wal.entries segments
  .ok (classify entries)

theorem mem_txIds {entries : List LogEntry} {txId : String} :
    txId ∈ txIds entries ↔ ∃ entry ∈ entries, entry.txId = txId := by
  rw [txIds, List.mem_insertionSort, List.mem_dedup, List.mem_map]

/-- A decided transaction has the entry that decides it. -/
theorem mem_txIds_of_decision {entries : List LogEntry} {txId : String} {decided : Decision}
    (decision_eq : decision entries txId = some decided) : txId ∈ txIds entries := by
  obtain ⟨entry, member, -⟩ := List.exists_of_findSome?_eq_some decision_eq
  obtain ⟨there, same⟩ := List.mem_filter.mp member
  exact mem_txIds.mpr ⟨entry, there, of_decide_eq_true same⟩

theorem mem_committed {entries : List LogEntry} {txId : String} :
    txId ∈ (classify entries).committed ↔ decision entries txId = some .committed := by
  rw [classify, List.mem_filter, decide_eq_true_iff]
  constructor
  · exact And.right
  · intro decision_eq
    exact ⟨mem_txIds_of_decision decision_eq, decision_eq⟩

theorem decision_append_singleton (entries : List LogEntry) (entry : LogEntry) (txId : String) :
    decision (entries ++ [entry]) txId =
      (decision entries txId).or (if entry.txId = txId then entryDecision entry else none) := by
  rw [decision, List.filter_append, List.findSome?_append]
  by_cases same : entry.txId = txId
  · simp [decision, same]
  · simp [decision, same]

end Recovery

end IcefallDB
