import IcefallDB.Lib.Run
import IcefallDB.Recovery
import Mathlib.Data.List.Induction

/-!
# Histories of the transaction log

A crash in the middle of an append leaves the beginning of a line at the end of a segment.  What is
read back afterwards, and which sequence number the reopened log hands out, depends on whether that
line parses; the next append goes behind whatever the segment ends with.
-/

namespace IcefallDB

/-- A log directory with the process that writes it. -/
structure LogProcess where
  segments : Segments
  /-- Next sequence number of the open log; a crash closes it. -/
  nextLsn : Option Nat
  /-- Entries whose record was written in full, in append order. -/
  durable : List LogEntry

/-- What can happen to the log. -/
inductive LogProcessEvent
  /-- The log is opened, for the first time or again. -/
  | reopen
  /-- An append returns. -/
  | append (body : LogEntryBody)
  /-- A crash in the middle of an append keeps the first bytes of the line. -/
  | crash (body : LogEntryBody) (kept : Nat)

namespace LogProcess

/-- A database whose log was never written. -/
def new : LogProcess :=
  { segments := ∅, nextLsn := none, durable := [] }

/-- Let an event happen.  Nothing can be appended to a closed log. -/
def perform (process : LogProcess) : LogProcessEvent → LogProcess
  | .reopen => { process with nextLsn := some (Wal.open process.segments) }
  | .append body =>
      match process.nextLsn with
      | none => process
      | some lsn =>
          { segments := Wal.append process.segments { lsn, body }
            nextLsn := some (lsn + 1)
            durable := process.durable ++ [{ lsn, body }] }
  | .crash body kept =>
      match process.nextLsn with
      | none => process
      | some lsn =>
          let line := LogEntry.line { lsn, body }
          { segments := Wal.appendBytes process.segments lsn (line.take kept)
            nextLsn := none
            durable :=
              if line.length ≤ kept + 1 then process.durable ++ [{ lsn, body }]
              else process.durable }

/-! ## Histories without torn lines -/

/-- Bytes that are empty or end with a newline. -/
def Untorn (bytes : List UInt8) : Prop :=
  bytes = [] ∨ bytes.getLast? = some 10

/-- The entry commits no transaction that was rolled back before. -/
def Decides (durable : List LogEntry) (body : LogEntryBody) : Prop :=
  ∀ txId, body = .commit txId → ∀ entry ∈ durable, entry.body ≠ .rollback txId

/-- An append finds no torn line, and a crash leaves nothing of a record or all of it; nothing that
was rolled back is committed. -/
def Guarded (process : LogProcess) (event : LogProcessEvent) : Prop :=
  ∀ lsn, process.nextLsn = some lsn →
    match event with
    | .reopen => True
    | .append body =>
        Untorn (Wal.segmentBytes process.segments (Wal.segmentForLsn lsn)) ∧
          Decides process.durable body
    | .crash body kept =>
        Untorn (Wal.segmentBytes process.segments (Wal.segmentForLsn lsn)) ∧
          Decides process.durable body ∧
            (kept = 0 ∨ (LogEntry.line { lsn, body }).length ≤ kept + 1)

/-- Reopening hands out no sequence number of a durable entry, and recovery finds out which
transactions a durable entry commits. -/
structure Recovers (process : LogProcess) : Prop where
  fresh : ∀ entry ∈ process.durable, entry.lsn < Wal.open process.segments
  exact : ∃ state, Recovery.recover process.segments = .ok state ∧
    ∀ txId, txId ∈ state.committed ↔ ∃ entry ∈ process.durable, entry.body = .commit txId

/-- The bytes of a segment hold entries in full; the last newline may be missing. -/
def Complete (bytes : List UInt8) (entries : List LogEntry) : Prop :=
  bytes = entries.flatMap LogEntry.line ∨ bytes = (entries.flatMap LogEntry.line).dropLast

/-- The durable entries that go to a segment. -/
def inSegment (durable : List LogEntry) (segment : Nat) : List LogEntry :=
  durable.filter fun entry => Wal.segmentForLsn entry.lsn = segment

/-- Every segment holds its durable entries in full, under ascending sequence numbers. -/
structure Intact (process : LogProcess) : Prop where
  complete : ∀ segment,
    Complete (Wal.segmentBytes process.segments segment) (inSegment process.durable segment)
  covered : ∀ entry ∈ process.durable, Wal.segmentForLsn entry.lsn ∈ process.segments.keys
  ascending : process.durable.Pairwise fun left right => left.lsn < right.lsn
  next : ∀ lsn, process.nextLsn = some lsn → ∀ entry ∈ process.durable, entry.lsn < lsn
  decided : ∀ txId, (∃ entry ∈ process.durable, entry.body = .commit txId) →
    Recovery.decision process.durable txId = some .committed

theorem Intact.new : Intact new where
  complete _ := .inl rfl
  covered := by simp [LogProcess.new]
  ascending := .nil
  next := by simp [LogProcess.new]
  decided := by simp [LogProcess.new]

/-! ## Reading complete segments -/

variable (entry : LogEntry)

theorem newline_not_mem_record : 10 ∉ toVec LogEntry.codec entry :=
  Json.newline_not_mem_toBytes _

theorem readLines_record (lines : List (List UInt8)) :
    Wal.readLines (toVec LogEntry.codec entry :: lines) =
      (Wal.readLines lines).map (entry :: ·) := by
  have read := fromSlice_toVec LogEntry.codec entry
  cases bytes_eq : toVec LogEntry.codec entry with
  | nil =>
      have unreadable : fromSlice LogEntry.codec [] = none := rfl
      rw [bytes_eq, unreadable] at read
      cases read
  | cons byte bytes =>
      rw [bytes_eq] at read
      rw [Wal.readLines, read]
      · cases Wal.readLines lines <;> rfl
      · simp

variable (entries : List LogEntry)

/-- Complete lines are read, and the reader goes on behind them. -/
theorem readLines_flatMap (rest : List UInt8) :
    Wal.readLines ((entries.flatMap LogEntry.line ++ rest).splitOn 10) =
      (Wal.readLines (rest.splitOn 10)).map (entries ++ ·) := by
  induction entries with
  | nil =>
      rw [List.flatMap_nil, List.nil_append]
      cases Wal.readLines (rest.splitOn 10) <;> rfl
  | cons entry entries ih =>
      have split : ((entry :: entries).flatMap LogEntry.line ++ rest).splitOn 10 =
          toVec LogEntry.codec entry :: (entries.flatMap LogEntry.line ++ rest).splitOn 10 := by
        rw [List.flatMap_cons, LogEntry.line, List.append_assoc, List.append_assoc,
          List.singleton_append]
        exact List.splitOn_append_cons_self_of_not_mem (newline_not_mem_record entry) _
      rw [split, readLines_record, ih]
      cases Wal.readLines (rest.splitOn 10) <;> rfl

variable {bytes : List UInt8}

/-- Entries are read even when the last newline is missing. -/
theorem readLines_of_complete {entries : List LogEntry} (complete : Complete bytes entries) :
    Wal.readLines (bytes.splitOn 10) = .ok entries := by
  rcases complete with rfl | rfl
  · have read := readLines_flatMap entries []
    rw [List.append_nil] at read
    simpa [Wal.readLines, Except.map] using read
  · induction entries using List.reverseRecOn with
    | nil => simp [Wal.readLines]
    | append_singleton entries last _ =>
        have bytes_eq : ((entries ++ [last]).flatMap LogEntry.line).dropLast =
            entries.flatMap LogEntry.line ++ toVec LogEntry.codec last := by
          rw [List.flatMap_append, List.flatMap_singleton, LogEntry.line, ← List.append_assoc,
            List.dropLast_concat]
        have single : (toVec LogEntry.codec last).splitOn 10 = [toVec LogEntry.codec last] :=
          List.splitOn_eq_singleton (newline_not_mem_record last)
        rw [bytes_eq, readLines_flatMap, single, readLines_record]
        rfl

/-! ## Reading an intact log -/

variable {process : LogProcess}

theorem readSegments_of_intact (intact : Intact process) (names : List Nat) :
    Wal.readSegments process.segments names =
      .ok (names.flatMap (inSegment process.durable)) := by
  induction names with
  | nil => rfl
  | cons name names ih =>
      rw [Wal.readSegments, readLines_of_complete (intact.complete name), ih]
      rfl

theorem nodup_lsn {entries : List LogEntry}
    (ascending : entries.Pairwise fun left right => left.lsn < right.lsn) :
    (entries.map LogEntry.lsn).Nodup :=
  List.pairwise_map.mpr (ascending.imp Nat.ne_of_lt)

/-- Reading an intact log returns the durable entries in append order. -/
theorem entries_of_intact (intact : Intact process) (written : process.segments.keys ≠ []) :
    Wal.entries process.segments = .ok process.durable := by
  have read := readSegments_of_intact intact (Wal.segmentNames process.segments)
  have perm : ((Wal.segmentNames process.segments).flatMap (inSegment process.durable)).Perm
      process.durable := by
    have names_nodup : (Wal.segmentNames process.segments).Nodup :=
      (List.perm_insertionSort _ _).nodup_iff.mpr process.segments.nodupKeys
    have durable_nodup := (nodup_lsn intact.ascending).of_map
    have segments_nodup : ((Wal.segmentNames process.segments).flatMap
        (inSegment process.durable)).Nodup := by
      rw [List.nodup_flatMap]
      constructor
      · intro segment _
        exact durable_nodup.filter _
      · apply names_nodup.imp
        intro left right different entry in_left in_right
        have left_eq := of_decide_eq_true (List.mem_filter.mp in_left).2
        have right_eq := of_decide_eq_true (List.mem_filter.mp in_right).2
        exact different (left_eq.symm.trans right_eq)
    rw [List.perm_ext_iff_of_nodup segments_nodup durable_nodup]
    intro entry
    rw [List.mem_flatMap]
    constructor
    · rintro ⟨segment, -, member⟩
      exact (List.mem_filter.mp member).1
    · intro member
      have named : Wal.segmentForLsn entry.lsn ∈ Wal.segmentNames process.segments :=
        (List.mem_insertionSort _).mpr (intact.covered entry member)
      exact ⟨_, named, List.mem_filter.mpr ⟨member, decide_eq_true rfl⟩⟩
  have sorted_eq : ((Wal.segmentNames process.segments).flatMap
      (inSegment process.durable)).insertionSort (fun left right => left.lsn ≤ right.lsn) =
        process.durable := by
    apply ((List.perm_insertionSort _ _).trans perm).eq_of_pairwise _
      (List.pairwise_insertionSort (fun left right : LogEntry => left.lsn ≤ right.lsn) _)
      (intact.ascending.imp Nat.le_of_lt)
    intro left right in_sorted in_durable below above
    have left_durable := ((List.perm_insertionSort _ _).trans perm).mem_iff.mp in_sorted
    have lsn_eq : left.lsn = right.lsn := by omega
    exact List.inj_on_of_nodup_map (nodup_lsn intact.ascending) left_durable in_durable lsn_eq
  rw [Wal.entries, if_neg (by simpa using written), read]
  exact congrArg Except.ok sorted_eq

theorem lt_nextLsnAfter : ∀ entry ∈ entries, entry.lsn < Wal.nextLsnAfter entries := by
  induction entries using List.reverseRecOn with
  | nil => simp
  | append_singleton entries last ih =>
      intro entry member
      have step : Wal.nextLsnAfter (entries ++ [last]) =
          if last.lsn ≥ Wal.nextLsnAfter entries then last.lsn + 1
          else Wal.nextLsnAfter entries := by
        rw [Wal.nextLsnAfter, List.foldl_append]
        rfl
      rw [step]
      rcases List.mem_append.mp member with earlier | same
      · have bound := ih entry earlier
        split <;> omega
      · obtain rfl := List.mem_singleton.mp same
        split <;> omega

/-! ## Keeping the log intact -/

theorem record_ne_nil : toVec LogEntry.codec entry ≠ [] := by
  intro empty
  have read := fromSlice_toVec LogEntry.codec entry
  have unreadable : fromSlice LogEntry.codec [] = none := rfl
  rw [empty, unreadable] at read
  cases read

theorem one_lt_length_line : 1 < entry.line.length := by
  have nonempty := List.length_pos_of_ne_nil (record_ne_nil entry)
  rw [LogEntry.line, List.length_append, List.length_singleton]
  omega

theorem dropLast_flatMap_line (last : LogEntry) :
    ((entries ++ [last]).flatMap LogEntry.line).dropLast =
      entries.flatMap LogEntry.line ++ toVec LogEntry.codec last := by
  rw [List.flatMap_append, List.flatMap_singleton, LogEntry.line, ← List.append_assoc,
    List.dropLast_concat]

/-- Complete bytes that are not torn end with the newline of their last entry. -/
theorem Complete.eq_of_untorn {entries : List LogEntry} (complete : Complete bytes entries)
    (untorn : Untorn bytes) : bytes = entries.flatMap LogEntry.line := by
  rcases complete with bytes_eq | bytes_eq
  · exact bytes_eq
  induction entries using List.reverseRecOn with
  | nil => exact bytes_eq
  | append_singleton entries last _ =>
      rw [dropLast_flatMap_line] at bytes_eq
      have nonempty := record_ne_nil last
      rcases untorn with empty | newline
      · rw [empty] at bytes_eq
        exact absurd (List.append_eq_nil_iff.mp bytes_eq.symm).2 nonempty
      · rw [bytes_eq, List.getLast?_append_of_ne_nil _ nonempty] at newline
        exact absurd (List.mem_of_getLast? newline) (newline_not_mem_record last)

/-- A line of which all but the newline is kept completes the entries before it. -/
theorem complete_append_take {entry : LogEntry} {kept : Nat} (whole : entry.line.length ≤ kept + 1) :
    Complete (entries.flatMap LogEntry.line ++ entry.line.take kept) (entries ++ [entry]) := by
  rcases Nat.lt_or_ge kept entry.line.length with short | long
  · right
    have record_length : kept = (toVec LogEntry.codec entry).length := by
      rw [LogEntry.line, List.length_append, List.length_singleton] at whole short
      omega
    rw [dropLast_flatMap_line, LogEntry.line, record_length, List.take_left]
  · left
    rw [List.take_of_length_le long, List.flatMap_append, List.flatMap_singleton]

theorem segmentBytes_appendBytes (segments : Segments) (lsn segment : Nat) (bytes : List UInt8) :
    Wal.segmentBytes (Wal.appendBytes segments lsn bytes) segment =
      Wal.segmentBytes segments segment ++
        if Wal.segmentForLsn lsn = segment then bytes else [] := by
  by_cases same : Wal.segmentForLsn lsn = segment
  · subst same
    rw [if_pos rfl, Wal.segmentBytes, Wal.appendBytes, AList.lookup_insert, Option.getD_some]
  · rw [if_neg same, List.append_nil, Wal.segmentBytes, Wal.appendBytes,
      AList.lookup_insert_ne (Ne.symm same), Wal.segmentBytes]

theorem inSegment_append_singleton (durable : List LogEntry) (entry : LogEntry) (segment : Nat) :
    inSegment (durable ++ [entry]) segment =
      inSegment durable segment ++
        if Wal.segmentForLsn entry.lsn = segment then [entry] else [] := by
  rw [inSegment, List.filter_append, inSegment, List.filter_singleton]
  by_cases same : Wal.segmentForLsn entry.lsn = segment <;> simp [same]

theorem mem_keys_appendBytes {segments : Segments} {lsn segment : Nat} :
    segment ∈ (Wal.appendBytes segments lsn bytes).keys ↔
      segment = Wal.segmentForLsn lsn ∨ segment ∈ segments.keys :=
  AList.mem_insert _

/-- A transaction whose decision is to abort was rolled back. -/
theorem rolledBack_of_decision {entries : List LogEntry} {txId : String}
    (decision_eq : Recovery.decision entries txId = some .aborted) :
    ∃ entry ∈ entries, entry.body = .rollback txId := by
  obtain ⟨entry, member, aborted⟩ := List.exists_of_findSome?_eq_some decision_eq
  obtain ⟨there, same⟩ := List.mem_filter.mp member
  have txId_eq : entry.txId = txId := of_decide_eq_true same
  refine ⟨entry, there, ?_⟩
  obtain ⟨lsn, body⟩ := entry
  cases body with
  | rollback other => exact congrArg LogEntryBody.rollback txId_eq
  | begin | insert | commit => cases aborted

/-- A durable commit that follows no rollback decides its transaction. -/
theorem decision_of_decides {durable : List LogEntry} {entry : LogEntry}
    (decided : ∀ txId, (∃ entry ∈ durable, entry.body = .commit txId) →
      Recovery.decision durable txId = some .committed)
    (decides : Decides durable entry.body) {txId : String}
    (committed : ∃ other ∈ durable ++ [entry], other.body = .commit txId) :
    Recovery.decision (durable ++ [entry]) txId = some .committed := by
  rw [Recovery.decision_append_singleton]
  cases earlier : Recovery.decision durable txId with
  | some decision =>
      cases decision with
      | committed => rfl
      | aborted =>
          obtain ⟨rolledBack, there, rollback⟩ := rolledBack_of_decision earlier
          obtain ⟨other, member, commit⟩ := committed
          rcases List.mem_append.mp member with before | last
          · have decided_before := decided txId ⟨other, before, commit⟩
            rw [earlier] at decided_before
            cases decided_before
          · obtain rfl := List.mem_singleton.mp last
            exact absurd rollback (decides txId commit rolledBack there)
  | none =>
      obtain ⟨other, member, commit⟩ := committed
      rcases List.mem_append.mp member with before | last
      · have decided_before := decided txId ⟨other, before, commit⟩
        rw [earlier] at decided_before
        cases decided_before
      · obtain rfl := List.mem_singleton.mp last
        have txId_eq : other.txId = txId := by rw [LogEntry.txId, commit, LogEntryBody.txId]
        simp [txId_eq, Recovery.entryDecision, commit]

/-- Writing a whole record, with or without its newline, keeps the log intact. -/
theorem Intact.record (intact : Intact process) {lsn kept : Nat} {body : LogEntryBody}
    (is_open : process.nextLsn = some lsn)
    (untorn : Untorn (Wal.segmentBytes process.segments (Wal.segmentForLsn lsn)))
    (decides : Decides process.durable body)
    (whole : (LogEntry.line { lsn, body }).length ≤ kept + 1) {nextLsn : Option Nat}
    (later : ∀ next, nextLsn = some next → next = lsn + 1) :
    Intact
      { segments := Wal.appendBytes process.segments lsn ((LogEntry.line { lsn, body }).take kept)
        nextLsn
        durable := process.durable ++ [{ lsn, body }] } where
  complete segment := by
    rw [segmentBytes_appendBytes, inSegment_append_singleton]
    by_cases same : Wal.segmentForLsn lsn = segment
    · subst same
      rw [if_pos rfl, if_pos rfl, (intact.complete _).eq_of_untorn untorn]
      exact complete_append_take _ whole
    · rw [if_neg same, if_neg same, List.append_nil, List.append_nil]
      exact intact.complete segment
  covered entry member := by
    rw [mem_keys_appendBytes]
    rcases List.mem_append.mp member with earlier | last
    · exact .inr (intact.covered entry earlier)
    · obtain rfl := List.mem_singleton.mp last
      exact .inl rfl
  ascending := by
    apply List.pairwise_append.mpr
    refine ⟨intact.ascending, List.pairwise_singleton _ _, ?_⟩
    intro earlier member other last
    obtain rfl := List.mem_singleton.mp last
    exact intact.next lsn is_open earlier member
  next := by
    intro next next_eq entry member
    obtain rfl := later next next_eq
    rcases List.mem_append.mp member with earlier | last
    · have below := intact.next lsn is_open entry earlier
      omega
    · obtain rfl := List.mem_singleton.mp last
      exact Nat.lt_succ_self lsn
  decided _ := decision_of_decides intact.decided decides

/-- Creating a segment without writing to it keeps the log intact. -/
theorem Intact.nothingWritten (intact : Intact process) {entry : LogEntry} (lsn : Nat) :
    Intact
      { segments := Wal.appendBytes process.segments lsn (entry.line.take 0)
        nextLsn := none
        durable := process.durable } where
  complete segment := by
    rw [segmentBytes_appendBytes, List.take_zero, ite_self, List.append_nil]
    exact intact.complete segment
  covered entry member := mem_keys_appendBytes.mpr (.inr (intact.covered entry member))
  ascending := intact.ascending
  next := by simp
  decided := intact.decided

/-- Opening an intact log hands out a sequence number above those of its entries. -/
theorem Intact.lt_open (intact : Intact process) :
    ∀ entry ∈ process.durable, entry.lsn < Wal.open process.segments := by
  intro entry member
  have written : process.segments.keys ≠ [] := by
    intro empty
    have named := intact.covered entry member
    rw [empty] at named
    cases named
  rw [Wal.open, entries_of_intact intact written]
  exact lt_nextLsnAfter process.durable entry member

/-- Every guarded event keeps the log intact. -/
theorem Intact.perform (intact : Intact process) {event : LogProcessEvent}
    (guarded : Guarded process event) : Intact (process.perform event) := by
  cases event with
  | reopen =>
      exact
        { intact with
          next := by
            intro lsn lsn_eq entry member
            obtain rfl := Option.some.inj lsn_eq
            exact intact.lt_open entry member }
  | append body =>
      cases is_open : process.nextLsn with
      | none =>
          simp only [LogProcess.perform, is_open]
          exact intact
      | some lsn =>
          obtain ⟨untorn, decides⟩ := guarded lsn is_open
          have whole := Nat.le_succ (LogEntry.line { lsn, body }).length
          simp only [LogProcess.perform, is_open]
          rw [Wal.append, ← List.take_length (l := LogEntry.line { lsn, body })]
          exact intact.record is_open untorn decides whole (by simp)
  | crash body kept =>
      cases is_open : process.nextLsn with
      | none =>
          simp only [LogProcess.perform, is_open]
          exact intact
      | some lsn =>
          obtain ⟨untorn, decides, rfl | whole⟩ := guarded lsn is_open
          · have long := one_lt_length_line { lsn, body }
            have partial_record : ¬(LogEntry.line { lsn, body }).length ≤ 0 + 1 := by omega
            simp only [LogProcess.perform, is_open, if_neg partial_record]
            exact intact.nothingWritten lsn
          · simp only [LogProcess.perform, is_open, if_pos whole]
            exact intact.record is_open untorn decides whole (by simp)

/-! ## Every history -/

/-- An intact log recovers. -/
theorem Intact.recovers (intact : Intact process) (written : process.segments.keys ≠ []) :
    Recovers process where
  fresh := intact.lt_open
  exact := by
    refine ⟨Recovery.classify process.durable, ?_, fun txId => ?_⟩
    · rw [Recovery.recover, entries_of_intact intact written]
      rfl
    · rw [Recovery.mem_committed]
      constructor
      · intro decision_eq
        obtain ⟨entry, member, committed⟩ := List.exists_of_findSome?_eq_some decision_eq
        obtain ⟨there, same⟩ := List.mem_filter.mp member
        have txId_eq : entry.txId = txId := of_decide_eq_true same
        refine ⟨entry, there, ?_⟩
        obtain ⟨lsn, body⟩ := entry
        cases body with
        | commit other => exact congrArg LogEntryBody.commit txId_eq
        | begin | insert | rollback => cases committed
      · exact intact.decided txId

/-- In every history whose appends find no torn line, whose crashes leave nothing of a record or all
of it, and which commits nothing that was rolled back, the log recovers once it has been written. -/
theorem recovers_of_guarded {events : List LogProcessEvent}
    (guarded : Run.Along perform Guarded new events)
    (written : (Run.after perform new events).segments.keys ≠ []) :
    Recovers (Run.after perform new events) := by
  have intact : Intact (Run.after perform new events) :=
    Run.invariant (fun (process : LogProcess) _ (intact : Intact process) guarded =>
      intact.perform guarded) Intact.new guarded
  exact intact.recovers written

theorem untorn_append_line (bytes : List UInt8) (entry : LogEntry) :
    Untorn (bytes ++ entry.line) := by
  right
  rw [LogEntry.line, ← List.append_assoc, List.getLast?_append_of_ne_nil _ (by simp)]
  rfl

/-- An append leaves no torn line behind. -/
theorem untorn_append {segments : Segments}
    (untorn : ∀ segment, Untorn (Wal.segmentBytes segments segment)) (entry : LogEntry)
    (segment : Nat) : Untorn (Wal.segmentBytes (Wal.append segments entry) segment) := by
  rw [Wal.append, segmentBytes_appendBytes]
  split
  · exact untorn_append_line _ _
  · rw [List.append_nil]
    exact untorn segment

/-- A transaction begins and commits. -/
def committed : List LogProcessEvent :=
  [.reopen, .append (.begin "a"), .append (.commit "a")]

theorem committed_recovers : Recovers (Run.after perform new committed) := by
  apply recovers_of_guarded
  · refine ⟨fun _ _ => trivial, ?_, ?_, trivial⟩
    · intro lsn _
      exact ⟨.inl rfl, nofun⟩
    · intro lsn lsn_eq
      obtain rfl : 1 = lsn := Option.some.inj lsn_eq
      refine ⟨untorn_append_line _ { lsn := 0, body := .begin "a" }, ?_⟩
      intro txId _ entry member
      obtain rfl := List.mem_singleton.mp member
      nofun
  · decide

/-- A transaction begins, and a crash keeps the first byte of its commit. -/
def tornCommit : List LogProcessEvent :=
  [.reopen, .append (.begin "a"), .crash (.commit "a") 1]

/-- After the crash, recovery fails and the first sequence number is handed out again. -/
theorem tornCommit_not_recovers :
    ¬Recovers (Run.after perform new tornCommit) ∧
      Wal.open (Run.after perform new tornCommit).segments = 0 := by
  have bytes_eq : Wal.segmentBytes (Run.after perform new tornCommit).segments 0 =
      [{ lsn := 0, body := .begin "a" }].flatMap LogEntry.line ++ [123] := by
    rfl
  have unread : Wal.readLines (([123] : List UInt8).splitOn 10) =
      .error (.serialization "log entry") := by
    rfl
  have entries_eq : Wal.entries (Run.after perform new tornCommit).segments =
      .error (.serialization "log entry") := by
    have names_eq : Wal.segmentNames (Run.after perform new tornCommit).segments = [0] := by
      rfl
    rw [Wal.entries, names_eq, Wal.readSegments, bytes_eq, readLines_flatMap, unread]
    rfl
  constructor
  · intro recovers
    obtain ⟨state, recovered, -⟩ := recovers.exact
    rw [Recovery.recover, entries_eq] at recovered
    cases recovered
  · rw [Wal.open, entries_eq]

end LogProcess

end IcefallDB
