import IcefallDB.Metadata.Checksum
import IcefallDB.Storage

/-!
# The transaction log

The log of a database is a directory of segment files, each a sequence of JSON lines.  Reading the
log reads every line of every segment and fails on the first one that does not parse; opening it
derives the next sequence number from what can be read.
-/

namespace IcefallDB

open Json (Codec record requiredField field_record)

/-- What an entry of the log records. -/
inductive LogEntryBody
  | begin (txId : String)
  /-- Rows inserted into a table, as Arrow IPC bytes. -/
  | insert (txId table : String) (rowsIpc : List UInt8)
  | commit (txId : String)
  | rollback (txId : String)
  deriving DecidableEq

/-- An entry of the log. -/
structure LogEntry where
  /-- Log sequence number. -/
  lsn : Nat
  body : LogEntryBody
  deriving DecidableEq

/-- The transaction an entry belongs to. -/
def LogEntryBody.txId : LogEntryBody → String
  | begin txId | insert txId _ _ | commit txId | rollback txId => txId

/-- The transaction an entry belongs to. -/
def LogEntry.txId (entry : LogEntry) : String :=
  entry.body.txId

/-! ## JSON forms -/

/-- JSON form of a byte. -/
def byteCodec : Codec UInt8 where
  encode byte := .num byte.toNat
  decode
    | .num (.ofNat value) => if value < 256 then some (UInt8.ofNat value) else none
    | _ => none
  decode_encode byte := by
    have bound : byte.toNat < 256 := byte.toNat_lt
    change (if byte.toNat < 256 then some (UInt8.ofNat byte.toNat) else none) = some byte
    rw [if_pos bound, UInt8.ofNat_toNat]
  encode_ne_null _ := nofun

namespace LogEntry

/-- Fields of a body: its tag comes first. -/
def bodyFields : LogEntryBody → List (String × Option Json)
  | .begin txId => [("op", some (.str "Begin")), ("tx_id", some (.str txId))]
  | .insert txId table rowsIpc =>
      [("op", some (.str "Insert")), ("tx_id", some (.str txId)), ("table", some (.str table)),
        ("rows_ipc", some (byteCodec.list.encode rowsIpc))]
  | .commit txId => [("op", some (.str "Commit")), ("tx_id", some (.str txId))]
  | .rollback txId => [("op", some (.str "Rollback")), ("tx_id", some (.str txId))]

/-- Read a body by its tag. -/
def readBody (document : Json) : Option LogEntryBody := do
  let op ← requiredField Codec.string "op" document
  let txId ← requiredField Codec.string "tx_id" document
  if op = "Begin" then some (.begin txId)
  else if op = "Insert" then do
    let table ← requiredField Codec.string "table" document
    let rowsIpc ← requiredField byteCodec.list "rows_ipc" document
    some (.insert txId table rowsIpc)
  else if op = "Commit" then some (.commit txId)
  else if op = "Rollback" then some (.rollback txId)
  else none

/-- JSON form of an entry: the fields of the body are flattened into it. -/
def codec : Codec LogEntry where
  encode entry := record (("lsn", some (Codec.nat.encode entry.lsn)) :: bodyFields entry.body)
  decode document := do
    let lsn ← requiredField Codec.nat "lsn" document
    let body ← readBody document
    some { lsn, body }
  decode_encode entry := by
    obtain ⟨lsn, body⟩ := entry
    cases body <;>
      simp [bodyFields, readBody, requiredField, field_record, List.lookup, Json.readRequired,
        Codec.string]
  encode_ne_null _ := nofun

/-- An entry as a line of a segment. -/
def line (entry : LogEntry) : List UInt8 :=
  toVec codec entry ++ [10]

end LogEntry

/-! ## Segments -/

/-- Contents of the segment files, by segment number.  There is no directory before there is a
segment. -/
abbrev Segments : Type :=
  HashMap Nat (List UInt8)

namespace Wal

/-- Number of sequence numbers per segment. -/
def segmentSize : Nat :=
  16 * 1024 * 1024

/-- The segment that an entry goes to. -/
def segmentForLsn (lsn : Nat) : Nat :=
  lsn / segmentSize

/-- Contents of a segment; a segment that is not there has none. -/
def segmentBytes (segments : Segments) (segment : Nat) : List UInt8 :=
  (segments.lookup segment).getD []

/-- Read the lines of a segment, failing on one that does not parse. -/
def readLines : List (List UInt8) → Except IcefallDBError (List LogEntry)
  | [] => .ok []
  | [] :: lines => readLines lines
  | bytes :: lines =>
      match fromSlice LogEntry.codec bytes with
      | none => .error (.serialization "log entry")
      | some entry => do
          let entries ← readLines lines
          .ok (entry :: entries)

/-- Segments in the order of their zero-padded names. -/
def segmentNames (segments : Segments) : List Nat :=
  segments.keys.insertionSort (· ≤ ·)

/-- Read segments one after the other. -/
def readSegments (segments : Segments) : List Nat → Except IcefallDBError (List LogEntry)
  | [] => .ok []
  | segment :: rest => do
      let entries ← readLines ((segmentBytes segments segment).splitOn 10)
      let others ← readSegments segments rest
      .ok (entries ++ others)

/-- Every entry of the log, by sequence number. -/
def entries (segments : Segments) : Except IcefallDBError (List LogEntry) :=
  if segments.keys.isEmpty then .error (.notFound "_wal")
  else do
    let read ← readSegments segments (segmentNames segments)
    .ok (read.insertionSort fun left right => left.lsn ≤ right.lsn)

/-- The first sequence number above those of some entries. -/
def nextLsnAfter (entries : List LogEntry) : Nat :=
  entries.foldl (fun next entry => if entry.lsn ≥ next then entry.lsn + 1 else next) 0

/-- Open the log: the next sequence number follows those of the entries, if they can be read. -/
def «open» (segments : Segments) : Nat :=
  match entries segments with
  | .ok read => nextLsnAfter read
  | .error _ => 0

/-- Append bytes to the segment of a sequence number. -/
def appendBytes (segments : Segments) (lsn : Nat) (bytes : List UInt8) : Segments :=
  segments.insert (segmentForLsn lsn) (segmentBytes segments (segmentForLsn lsn) ++ bytes)

/-- Append an entry. -/
def append (segments : Segments) (entry : LogEntry) : Segments :=
  appendBytes segments entry.lsn entry.line

end Wal

end IcefallDB
