import IcefallDB.MutationWal.Heal

/-!
# The log file

The mutation log is a file of JSON lines.  Its reader stops at the first line that it cannot read,
which a crash in the middle of an append leaves at the end of the file; its writer appends after
whatever the file ends with.
-/

namespace IcefallDB

namespace MutationWal

/-- The log file, together with the records whose append returned since the last clear. -/
structure LogFile where
  bytes : List UInt8
  /-- Acknowledged records, in append order. -/
  acknowledged : List (MutationRecord String)

/-- What can happen to the log file. -/
inductive LogEvent
  /-- An append returns. -/
  | append (mutation : MutationRecord String)
  /-- A crash in the middle of an append keeps at most `kept` bytes of the line, and never its
  newline. -/
  | crash (mutation : MutationRecord String) (kept : Nat)
  /-- The table is opened again, which reads the file only. -/
  | reopen
  /-- A checkpoint removes the file. -/
  | clear

/-- A record as a line of the file. -/
def line (mutation : MutationRecord String) : List UInt8 :=
  toVec MutationRecord.codec mutation ++ [10]

namespace LogFile

/-- The log of a new table. -/
def empty : LogFile :=
  { bytes := [], acknowledged := [] }

/-- Let an event happen. -/
def perform (file : LogFile) : LogEvent → LogFile
  | .append mutation =>
      { bytes := file.bytes ++ line mutation, acknowledged := file.acknowledged ++ [mutation] }
  | .crash mutation kept => { file with bytes := file.bytes ++ (line mutation).dropLast.take kept }
  | .reopen => file
  | .clear => empty

/-- The file after a history. -/
def after (events : List LogEvent) : LogFile :=
  events.foldl perform empty

end LogFile

/-- Read lines up to the first one that does not parse or does not verify.  `iterate` is the
instance of a parsed record whose map order the verification sees. -/
def readLines (iterate : MutationRecord String → MutationRecord String) :
    List (List UInt8) → List (MutationRecord String)
  | [] => []
  | [] :: lines => readLines iterate lines
  | bytes :: lines =>
      match fromSlice MutationRecord.codec bytes with
      | some mutation =>
          if (iterate mutation).verify then mutation :: readLines iterate lines else []
      | none => []

/-- The durable prefix of a log file, sorted by sequence. -/
def readBytes (iterate : MutationRecord String → MutationRecord String) (bytes : List UInt8) :
    List (MutationRecord String) :=
  (readLines iterate (bytes.splitOn 10)).insertionSort fun left right =>
    left.sequence ≤ right.sequence

/-! ## Histories of the writers -/

/-- Writers seal a record before they append it, and give it the sequence that follows the live
manifest. -/
def Disciplined (file : LogFile) : LogEvent → Prop
  | .append mutation =>
      mutation.verify = true ∧
        ∀ earlier ∈ file.acknowledged, earlier.sequence ≤ mutation.sequence
  | _ => True

/-- The file is empty or ends with a newline. -/
def Untorn (bytes : List UInt8) : Prop :=
  bytes = [] ∨ bytes.getLast? = some 10

/-- An append finds no torn line, and its record has at most one secondary index. -/
def Guarded (file : LogFile) : LogEvent → Prop
  | .append mutation =>
      Untorn file.bytes ∧ mutation.indexGenerations.entries.length ≤ 1
  | _ => True

/-- Every event of a history meets a condition on the file it finds. -/
def Along (condition : LogFile → LogEvent → Prop) : LogFile → List LogEvent → Prop
  | _, [] => True
  | file, event :: events => condition file event ∧ Along condition (file.perform event) events

/-! ## Acknowledged records are read back -/

/-- The file holds the acknowledged lines in full, followed by the beginning of at most one line. -/
structure Intact (file : LogFile) : Prop where
  bytes : ∃ torn, 10 ∉ torn ∧ file.bytes = file.acknowledged.flatMap line ++ torn
  readable : ∀ mutation ∈ file.acknowledged,
    mutation.verify = true ∧ mutation.indexGenerations.entries.length ≤ 1
  sorted : file.acknowledged.Pairwise fun left right => left.sequence ≤ right.sequence

theorem Intact.empty : Intact LogFile.empty where
  bytes := ⟨[], by simp [LogFile.empty]⟩
  readable := by simp [LogFile.empty]
  sorted := .nil

private theorem newline_not_mem_torn (mutation : MutationRecord String) (kept : Nat) :
    10 ∉ (line mutation).dropLast.take kept := by
  intro member
  have in_record := List.mem_of_mem_take member
  rw [line, List.dropLast_concat] at in_record
  exact Json.newline_not_mem_toBytes _ in_record

private theorem torn_eq_nil {whole torn : List UInt8} (no_newline : 10 ∉ torn)
    (untorn : Untorn (whole ++ torn)) : torn = [] := by
  by_contra nonempty
  rcases untorn with none | newline
  · exact nonempty (List.append_eq_nil_iff.mp none).2
  · rw [List.getLast?_append_of_ne_nil whole nonempty] at newline
    exact no_newline (List.mem_of_getLast? newline)

/-- Each event keeps the acknowledged lines in full. -/
theorem Intact.perform {file : LogFile} (intact : Intact file) {event : LogEvent}
    (disciplined : Disciplined file event) (guarded : Guarded file event) :
    Intact (file.perform event) := by
  obtain ⟨torn, no_newline, bytes_eq⟩ := intact.bytes
  cases event with
  | append mutation =>
      obtain ⟨verified, newest⟩ := disciplined
      obtain ⟨untorn, short⟩ := guarded
      rw [bytes_eq] at untorn
      obtain rfl := torn_eq_nil no_newline untorn
      refine ⟨⟨[], by simp, ?_⟩, ?_, ?_⟩
      · simp [LogFile.perform, bytes_eq]
      · intro other member
        rcases List.mem_append.mp member with earlier | last
        · exact intact.readable other earlier
        · obtain rfl := List.mem_singleton.mp last
          exact ⟨verified, short⟩
      · refine List.pairwise_append.mpr ⟨intact.sorted, List.pairwise_singleton _ _, ?_⟩
        intro earlier member other last
        obtain rfl := List.mem_singleton.mp last
        exact newest earlier member
  | crash mutation kept =>
      refine ⟨⟨torn ++ (line mutation).dropLast.take kept, ?_, ?_⟩, intact.readable, intact.sorted⟩
      · intro member
        rcases List.mem_append.mp member with old | new
        · exact no_newline old
        · exact newline_not_mem_torn mutation kept new
      · simp [LogFile.perform, bytes_eq]
  | reopen => exact intact
  | clear => exact Intact.empty

/-- A history of the writers keeps the acknowledged lines in full. -/
theorem Intact.foldl_perform {file : LogFile} (intact : Intact file) {events : List LogEvent}
    (disciplined : Along Disciplined file events) (guarded : Along Guarded file events) :
    Intact (events.foldl LogFile.perform file) := by
  induction events generalizing file with
  | nil => exact intact
  | cons event events ih =>
      have step := intact.perform disciplined.1 guarded.1
      exact ih step disciplined.2 guarded.2

section Reader

variable {iterate : MutationRecord String → MutationRecord String}
  (iterate_same : ∀ mutation : MutationRecord String, mutation.Same (iterate mutation))

include iterate_same

/-- A complete line is read and the reader goes on behind it. -/
theorem readLines_line {mutation : MutationRecord String} (verified : mutation.verify = true)
    (short : mutation.indexGenerations.entries.length ≤ 1) (rest : List UInt8) :
    readLines iterate ((line mutation ++ rest).splitOn 10) =
      mutation :: readLines iterate (rest.splitOn 10) := by
  have same : iterate mutation = mutation :=
    ((iterate_same mutation).eq_of_length_le_one short).symm
  have read := fromSlice_toVec MutationRecord.codec mutation
  have single_line : 10 ∉ toVec MutationRecord.codec mutation := Json.newline_not_mem_toBytes _
  have split : (line mutation ++ rest).splitOn 10 =
      toVec MutationRecord.codec mutation :: rest.splitOn 10 := by
    rw [line, List.append_assoc, List.singleton_append]
    exact List.splitOn_append_cons_self_of_not_mem single_line rest
  rw [split]
  cases bytes_eq : toVec MutationRecord.codec mutation with
  | nil =>
      have unreadable : fromSlice MutationRecord.codec [] = none := rfl
      rw [bytes_eq, unreadable] at read
      cases read
  | cons byte bytes =>
      rw [bytes_eq] at read
      rw [readLines, read]
      · simp only [same, verified, if_true]
      · simp

/-- The complete lines of a file are read. -/
theorem readLines_flatMap {mutations : List (MutationRecord String)}
    (readable : ∀ mutation ∈ mutations,
      mutation.verify = true ∧ mutation.indexGenerations.entries.length ≤ 1)
    (rest : List UInt8) :
    readLines iterate ((mutations.flatMap line ++ rest).splitOn 10) =
      mutations ++ readLines iterate (rest.splitOn 10) := by
  induction mutations with
  | nil => rfl
  | cons mutation mutations ih =>
      obtain ⟨verified, short⟩ := readable mutation List.mem_cons_self
      rw [List.flatMap_cons, List.append_assoc, readLines_line iterate_same verified short,
        ih fun other member => readable other (List.mem_cons_of_mem _ member), List.cons_append]

/-- In every history whose appends find no torn line and carry at most one secondary index, the
reader returns the acknowledged records in append order. -/
theorem acknowledged_sublist_readBytes {events : List LogEvent}
    (disciplined : Along Disciplined LogFile.empty events)
    (guarded : Along Guarded LogFile.empty events) :
    (LogFile.after events).acknowledged.Sublist
      (readBytes iterate (LogFile.after events).bytes) := by
  have intact : Intact (LogFile.after events) := Intact.empty.foldl_perform disciplined guarded
  obtain ⟨torn, -, bytes_eq⟩ := intact.bytes
  rw [readBytes, bytes_eq, readLines_flatMap iterate_same intact.readable]
  exact List.sublist_insertionSort intact.sorted (List.sublist_append_left _ _)

end Reader

private theorem sealed_verify (mutation : MutationRecord String) : mutation.sealed.verify = true :=
  decide_eq_true rfl

/-- A deletion that follows the deferred one. -/
def nextDelete : MutationRecord String :=
  { deferredDelete with sequence := deferredDelete.sequence + 1 }

/-- A checkpoint removes a torn line.  Then an append returns, a crash loses the next one before its
first byte, the append is repeated on the opened table, and another crash tears a line. -/
def interruptedAppends : List LogEvent :=
  [.crash deferredDelete.sealed 1, .reopen, .clear, .append deferredDelete.sealed,
    .crash nextDelete.sealed 0, .reopen, .append nextDelete.sealed, .crash nextDelete.sealed 1,
    .reopen]

theorem interruptedAppends_read :
    (LogFile.after interruptedAppends).acknowledged =
        [deferredDelete.sealed, nextDelete.sealed] ∧
      (LogFile.after interruptedAppends).acknowledged.Sublist
        (readBytes id (LogFile.after interruptedAppends).bytes) := by
  refine ⟨rfl, acknowledged_sublist_readBytes (fun _ => ⟨rfl, HashMap.Same.refl _⟩) ?_ ?_⟩
  · refine ⟨trivial, trivial, trivial, ⟨sealed_verify _, ?_⟩, trivial, trivial,
      ⟨sealed_verify _, ?_⟩, trivial, trivial, trivial⟩
    · simp [LogFile.perform, LogFile.empty]
    · intro earlier member
      obtain rfl := List.mem_singleton.mp member
      exact Nat.le_succ _
  · refine ⟨trivial, trivial, trivial, ⟨.inl rfl, by decide⟩, trivial, trivial, ⟨.inr ?_, by decide⟩,
      trivial, trivial, trivial⟩
    simp [LogFile.perform, LogFile.empty, line]

/-- A crash keeps the first byte of a record, and the append is repeated after it. -/
def crashThenAppend : List LogEvent :=
  [.crash deferredDelete.sealed 1, .append deferredDelete.sealed]

/-- Two opening braces are the start of no document. -/
private theorem parse_brace_brace (text : List Char) :
    Json.parse ('\x7b' :: '\x7b' :: text) = none := by
  rfl

private theorem toVec_mutation (mutation : MutationRecord String) :
    ∃ text, toVec MutationRecord.codec mutation = 123 :: Json.utf8 text ∧
      fromSlice MutationRecord.codec (123 :: 123 :: Json.utf8 text) = none := by
  obtain ⟨entries, encoded⟩ : ∃ entries, MutationRecord.codec.encode mutation = .obj entries :=
    ⟨_, rfl⟩
  refine ⟨Json.renderEntries entries ++ ['\x7d'], ?_, ?_⟩
  · rw [toVec, encoded, Json.toBytes, Json.render]
    rfl
  · have decoded := Json.utf8Decode_utf8
      ('\x7b' :: '\x7b' :: (Json.renderEntries entries ++ ['\x7d']))
    have unread : Json.ofBytes
        (123 :: 123 :: Json.utf8 (Json.renderEntries entries ++ ['\x7d'])) = none := by
      change (Json.utf8Decode (Json.utf8 ('\x7b' :: '\x7b' :: _))).bind Json.parse = none
      rw [decoded, Option.bind_some, parse_brace_brace]
    rw [fromSlice, unread, Option.bind_none]

/-- The record that was appended after the crash is never read. -/
theorem crashThenAppend_lost :
    Along Disciplined LogFile.empty crashThenAppend ∧
      ¬(LogFile.after crashThenAppend).acknowledged.Sublist
        (readBytes id (LogFile.after crashThenAppend).bytes) := by
  refine ⟨⟨trivial, ⟨sealed_verify _, by simp [LogFile.empty, LogFile.perform]⟩, trivial⟩, ?_⟩
  have nothing : readBytes id (LogFile.after crashThenAppend).bytes = [] := by
    obtain ⟨text, encoded, unread⟩ := toVec_mutation deferredDelete.sealed
    have record_line : 10 ∉ toVec MutationRecord.codec deferredDelete.sealed :=
      Json.newline_not_mem_toBytes _
    have single_line : 10 ∉ 123 :: toVec MutationRecord.codec deferredDelete.sealed := by
      simpa using record_line
    have bytes_eq : (LogFile.after crashThenAppend).bytes =
        123 :: toVec MutationRecord.codec deferredDelete.sealed ++ 10 :: [] := by
      simp only [LogFile.after, crashThenAppend, List.foldl_cons, List.foldl_nil, LogFile.perform,
        LogFile.empty, line, List.dropLast_concat, encoded]
      rfl
    rw [readBytes, bytes_eq, List.splitOn_append_cons_self_of_not_mem single_line, encoded,
      readLines, unread]
    · rfl
    · simp
  rw [nothing, List.sublist_nil]
  exact List.cons_ne_nil _ _

end MutationWal

end IcefallDB
