import IcefallDB.Lib.Run
import IcefallDB.Mutators

/-!
# Serial executions of two mutators

If one client is done before the other one begins, the two statements are executed one after the
other.  Otherwise the client that commits last commits locations that the other one has not seen, and
the table is left with the two statements laid over each other.
-/

namespace IcefallDB

variable {R K : Type} [DecidableEq K]

/-! ## One statement -/

/-- Locate the rows of a statement on the newest snapshot and commit. -/
def execute (check : CommitCheck R) (statement : Statement R K) (snapshot : Snapshot R) :
    Except IcefallDBError (Snapshot R) := do
  let change ← statement.plan snapshot
  commitPlanned check snapshot change

variable {check : CommitCheck R} {statement : Statement R K} {snapshot after : Snapshot R}
  {change : Option (Change R)}

/-- A commit removes what was located wherever it takes place, and adds new fragments. -/
theorem addressed_commitPlanned (committed : commitPlanned check snapshot change = .ok after) :
    (∃ added, after.addressed = (snapshot.addressed.filter fun row =>
        row.1.2 ∉ (change.elim [] Change.locs).map Prod.snd) ++
          (newFragments snapshot.nextFragmentId added).flatMap Fragment.addressed ∧
      added.flatten.Perm (change.elim [] Change.patched ++
        numberRows snapshot.nextRowId (change.elim [] Change.inserted))) ∧
    after.nextRowId = snapshot.nextRowId + (change.elim [] Change.inserted).length := by
  cases change with
  | none =>
      obtain rfl := Except.ok.inj committed
      constructor
      · refine ⟨[], ?_, .refl _⟩
        simp [newFragments]
      · rfl
  | some change =>
      obtain ⟨_, -, committed⟩ := Script.except_bind_eq_ok.mp committed
      obtain rfl := Except.ok.inj committed
      have leaves := change.leaves_apply snapshot
      exact ⟨leaves.addressed, leaves.nextRowId⟩

section Planned

variable {locs : List Address} {patched : List (Nat × R)} {inserted : List R}

/-- What is at a located place is a row that the statement selects. -/
theorem Statement.Plans.mem_locations (wellFormed : snapshot.WellFormed)
    (plans : statement.Plans snapshot locs patched inserted) {row : Address × R}
    (member : row ∈ snapshot.addressed) :
    row.1.2 ∈ locs.map Prod.snd ↔ statement.rewrite.selects row.2 = true := by
  constructor
  · intro located
    obtain ⟨address, address_located, same⟩ := List.mem_map.mp located
    obtain ⟨other, other_member, selected⟩ := (plans.locs address).mp address_located
    obtain rfl := Snapshot.eq_of_same_location wellFormed other_member member same
    exact selected
  · intro selected
    exact List.mem_map_of_mem ((plans.locs row.1).mpr ⟨row.2, member, selected⟩)

theorem Statement.Plans.filter_located (wellFormed : snapshot.WellFormed)
    (plans : statement.Plans snapshot locs patched inserted) :
    (snapshot.addressed.filter fun row => row.1.2 ∉ locs.map Prod.snd) =
      snapshot.addressed.filter fun row => !statement.rewrite.selects row.2 := by
  apply List.filter_congr
  intro row member
  rw [Bool.eq_iff_iff, decide_eq_true_eq, plans.mem_locations wellFormed member, Bool.not_eq_true',
    Bool.not_eq_true]

/-- A location does not name a fragment that came later. -/
theorem Statement.Plans.notMem_locations (wellFormed : snapshot.WellFormed)
    (plans : statement.Plans snapshot locs patched inserted) {location : Nat × Nat}
    (later : snapshot.nextFragmentId ≤ location.1) : location ∉ locs.map Prod.snd := by
  intro located
  obtain ⟨address, address_located, rfl⟩ := List.mem_map.mp located
  obtain ⟨row, member, -⟩ := (plans.locs address).mp address_located
  have earlier : address.2.1 < snapshot.nextFragmentId :=
    Snapshot.fragment_lt_of_mem_addressed wellFormed member
  omega

/-- The versions of a plan have distinct row ids. -/
theorem Statement.Plans.patched_nodup (wellFormed : snapshot.WellFormed)
    (plans : statement.Plans snapshot locs patched inserted) : (patched.map Prod.fst).Nodup := by
  rw [(plans.patched.map Prod.fst).nodup_iff]
  have ids (rows : List (Nat × R)) :
      ((statement.rewrite.versions rows).map Prod.fst).Sublist (rows.map Prod.fst) := by
    induction rows with
    | nil => exact .slnil
    | cons row rows ih =>
        rw [Rewrite.versions, List.filterMap_cons]
        cases statement.rewrite.version row.2 with
        | none => exact ih.cons _
        | some new => exact ih.cons_cons _
  apply (ids snapshot.liveRows).nodup
  rw [Snapshot.liveRows_ids]
  exact wellFormed.liveIds_nodup

/-- The rows of a plan can be moved. -/
theorem Statement.Plans.moves (wellFormed : snapshot.WellFormed) {rows : List (Address × R)}
    (plans : statement.Plans snapshot (rows.map Prod.fst)
      (rows.map fun row => (row.1.1, row.2)) inserted) :
    snapshot.Moves ((sortLocated rows).map Prod.fst) := by
  have sorted : (sortLocated rows).Perm rows := List.perm_insertionSort _ rows
  constructor
  · intro address member
    obtain ⟨row, found, -⟩ := (plans.locs address).mp ((sorted.map Prod.fst).mem_iff.mp member)
    exact List.mem_map.mpr ⟨_, found, rfl⟩
  · rw [(sorted.map Prod.fst).nodup_iff]
    have distinct := plans.patched_nodup wellFormed
    rw [List.map_map] at distinct
    apply List.Nodup.of_map Prod.fst
    rw [List.map_map]
    exact distinct

end Planned

theorem wellFormed_commitPlanned (wellFormed : snapshot.WellFormed)
    (planned : statement.plan snapshot = .ok change)
    (committed : commitPlanned check snapshot change = .ok after) : after.WellFormed := by
  have plans := plans_of_plan wellFormed planned
  cases change with
  | none =>
      obtain rfl := Except.ok.inj committed
      exact wellFormed
  | some change =>
      obtain ⟨_, -, committed⟩ := Script.except_bind_eq_ok.mp committed
      obtain rfl := Except.ok.inj committed
      cases change with
      | deletes locs => exact wellFormed.delete _
      | update rows => exact wellFormed.mutate (plans.moves wellFormed) [] _
      | merge matched inserts => exact wellFormed.mutate (plans.moves wellFormed) inserts _

/-- Live rows of a snapshot with new fragments. -/
theorem liveRows_of_addressed {kept : List (Address × R)} {fragmentId : Nat}
    {added : List (List (Nat × R))}
    (addressed : after.addressed = kept ++
      (newFragments fragmentId added).flatMap Fragment.addressed) :
    after.liveRows = kept.map (fun row => (row.1.1, row.2)) ++ added.flatten := by
  rw [Snapshot.liveRows, addressed, List.map_append, Snapshot.liveRows_newFragments]

/-- The rows that a statement inserts, with their row ids. -/
def Statement.newRows (statement : Statement R K) (rowId : Nat) (rows : List (Nat × R)) :
    List (Nat × R) :=
  numberRows rowId (statement.inserts rows)

/-- A statement that is executed rewrites the live rows and inserts new ones. -/
theorem liveRows_execute (wellFormed : snapshot.WellFormed)
    (executed : execute check statement snapshot = .ok after) :
    after.WellFormed ∧
      after.nextRowId = snapshot.nextRowId + (statement.inserts snapshot.liveRows).length ∧
      after.liveRows.Perm (statement.rewrite.run snapshot.liveRows ++
        statement.newRows snapshot.nextRowId snapshot.liveRows) := by
  obtain ⟨change, planned, committed⟩ := Script.except_bind_eq_ok.mp executed
  have plans := plans_of_plan wellFormed planned
  obtain ⟨⟨added, addressed, added_perm⟩, nextRowId⟩ := addressed_commitPlanned committed
  refine ⟨wellFormed_commitPlanned wellFormed planned committed, plans.inserted ▸ nextRowId, ?_⟩
  rw [liveRows_of_addressed addressed, plans.filter_located wellFormed]
  have kept : (snapshot.addressed.filter fun row => !statement.rewrite.selects row.2).map
      (fun row => (row.1.1, row.2)) =
        snapshot.liveRows.filter fun row => !statement.rewrite.selects row.2 := by
    rw [Snapshot.liveRows, List.filter_map]
    rfl
  rw [kept]
  calc _
    List.Perm _ ((snapshot.liveRows.filter fun row => !statement.rewrite.selects row.2) ++
        (statement.rewrite.versions snapshot.liveRows ++
          statement.newRows snapshot.nextRowId snapshot.liveRows)) := by
      apply List.Perm.append_left
      apply added_perm.trans
      rw [plans.inserted]
      exact plans.patched.append_right _
    List.Perm _ _ := by
      rw [← List.append_assoc]
      exact (statement.rewrite.run_perm snapshot.liveRows).symm.append_right _

/-! ## Two statements -/

/-- Execute two statements one after the other. -/
def inOrder (check : CommitCheck R) (first second : Statement R K) (snapshot : Snapshot R) :
    Except IcefallDBError (Snapshot R) := do
  let between ← execute check first snapshot
  execute check second between

/-- The rows that two statements leave of those that they insert one after the other. -/
def insertedInOrder (first second : Statement R K) (snapshot : Snapshot R) : List (Nat × R) :=
  second.rewrite.run (first.newRows snapshot.nextRowId snapshot.liveRows) ++
    second.newRows (snapshot.nextRowId + (first.inserts snapshot.liveRows).length)
      (first.rewrite.run snapshot.liveRows ++
        first.newRows snapshot.nextRowId snapshot.liveRows)

variable {first second : Statement R K}

theorem liveRows_inOrder (wellFormed : snapshot.WellFormed)
    (executed : inOrder check first second snapshot = .ok after) :
    after.WellFormed ∧ after.liveRows.Perm
      (second.rewrite.run (first.rewrite.run snapshot.liveRows) ++
        insertedInOrder first second snapshot) := by
  obtain ⟨between, executed_first, executed⟩ := Script.except_bind_eq_ok.mp executed
  obtain ⟨wellFormed, nextRowId, between_rows⟩ := liveRows_execute wellFormed executed_first
  obtain ⟨wellFormed, -, after_rows⟩ := liveRows_execute wellFormed executed
  refine ⟨wellFormed, after_rows.trans ?_⟩
  rw [Statement.newRows, second.inserts_perm between_rows, nextRowId, insertedInOrder,
    ← List.append_assoc, ← Rewrite.run_append]
  exact (between_rows.filterMap _).append_right _

theorem numberRows_append (rowId : Nat) (left right : List R) :
    numberRows rowId (left ++ right) =
      numberRows rowId left ++ numberRows (rowId + left.length) right := by
  rw [numberRows, List.length_append, ← List.range'_append_1, List.zip_append]
  · rfl
  · rw [List.length_range']

/-- Two changes that were located on one snapshot leave its rows with both statements laid over each
other. -/
theorem liveRows_overlaid (wellFormed : snapshot.WellFormed)
    {change' : Option (Change R)} {between : Snapshot R}
    (planned : first.plan snapshot = .ok change) (planned' : second.plan snapshot = .ok change')
    (committed : commitPlanned check snapshot change = .ok between)
    (committed' : commitPlanned check between change' = .ok after) :
    after.liveRows.Perm
      (Identified.expand (first.rewrite.overlay second.rewrite) snapshot.liveRows ++
        numberRows snapshot.nextRowId
          (first.inserts snapshot.liveRows ++ second.inserts snapshot.liveRows)) := by
  have plans := plans_of_plan wellFormed planned
  have plans' := plans_of_plan wellFormed planned'
  obtain ⟨⟨added, addressed, added_perm⟩, nextRowId⟩ := addressed_commitPlanned committed
  obtain ⟨⟨added', addressed', added_perm'⟩, -⟩ := addressed_commitPlanned committed'
  -- the second commit does not touch what the first one added
  have untouched : (((newFragments snapshot.nextFragmentId added).flatMap Fragment.addressed).filter
      fun row => row.1.2 ∉ (change'.elim [] Change.locs).map Prod.snd) =
        (newFragments snapshot.nextFragmentId added).flatMap Fragment.addressed := by
    rw [List.filter_eq_self]
    intro row member
    have later := Snapshot.fragment_ge_of_mem_newFragments member
    exact decide_eq_true (plans'.notMem_locations wellFormed later)
  have kept : ((snapshot.addressed.filter fun row =>
      row.1.2 ∉ (change.elim [] Change.locs).map Prod.snd).filter fun row =>
        row.1.2 ∉ (change'.elim [] Change.locs).map Prod.snd).map (fun row => (row.1.1, row.2)) =
      snapshot.liveRows.filter fun row =>
        !(first.rewrite.selects row.2 || second.rewrite.selects row.2) := by
    rw [List.filter_comm, plans'.filter_located wellFormed, List.filter_comm,
      plans.filter_located wellFormed, List.filter_filter, Snapshot.liveRows, List.filter_map]
    congr 1
    apply List.filter_congr
    intro row _
    simp [Bool.and_comm]
  rw [addressed, List.filter_append, untouched] at addressed'
  rw [liveRows_of_addressed addressed', List.map_append, kept, Snapshot.liveRows_newFragments,
    numberRows_append, List.append_assoc]
  rw [nextRowId, plans.inserted, plans'.inserted] at added_perm'
  rw [plans.inserted] at added_perm
  have added_first := added_perm.trans (plans.patched.append_right _)
  have added_second := added_perm'.trans (plans'.patched.append_right _)
  have laid_over :=
    Identified.expand_overlay_perm first.rewrite second.rewrite snapshot.liveRows
  apply ((added_first.append added_second).append_left _).trans
  apply List.Perm.trans _ (laid_over.symm.append_right _)
  simp only [List.append_assoc]
  apply List.Perm.append_left
  apply List.Perm.append_left
  exact List.perm_append_comm_assoc _ _ _

/-- Executing two statements one after the other leaves what they leave if both were located before
either was committed: the second one spares what the first one did, and neither the index checks nor
the inserted rows depend on which. -/
structure Undisturbed (check : CommitCheck R) (first second : Statement R K) (snapshot : Snapshot R)
    (inserted : List (Nat × R)) : Prop where
  executes : ∃ after, inOrder check first second snapshot = .ok after
  spares : ∀ row ∈ snapshot.liveRows, first.rewrite.Spares second.rewrite row.2
  inserts : (insertedInOrder first second snapshot).Perm inserted

theorem id_lt_of_mem_liveRows (wellFormed : snapshot.WellFormed) {row : Nat × R}
    (member : row ∈ snapshot.liveRows) : row.1 < snapshot.nextRowId := by
  apply Snapshot.liveIds_lt wellFormed
  rw [← Snapshot.liveRows_ids]
  exact List.mem_map_of_mem member

theorem id_ge_of_mem_numberRows {rowId : Nat} {rows : List R} {row : Nat × R}
    (member : row ∈ numberRows rowId rows) : rowId ≤ row.1 := by
  have id_member := List.mem_map_of_mem (f := Prod.fst) member
  rw [numberRows_ids] at id_member
  exact (List.mem_range'_1.mp id_member).1

theorem id_ge_of_mem_insertedInOrder {row : Nat × R}
    (member : row ∈ insertedInOrder first second snapshot) : snapshot.nextRowId ≤ row.1 := by
  rcases List.mem_append.mp member with rewritten | inserted
  · obtain ⟨old, old_member, made⟩ := List.mem_filterMap.mp rewritten
    obtain ⟨new, -, rfl⟩ := Option.map_eq_some_iff.mp made
    have old_ge : snapshot.nextRowId ≤ old.1 := id_ge_of_mem_numberRows old_member
    exact old_ge
  · have := id_ge_of_mem_numberRows inserted
    omega

theorem id_of_mem_expand {f : R → List R} {rows : List (Nat × R)} {row : Nat × R}
    (member : row ∈ Identified.expand f rows) : ∃ old ∈ rows, old.1 = row.1 := by
  obtain ⟨old, old_member, made⟩ := List.mem_flatMap.mp member
  obtain ⟨new, -, rfl⟩ := List.mem_map.mp made
  exact ⟨old, old_member, rfl⟩

/-- A table with two statements laid over each other holds what executing them in order leaves
exactly if they are undisturbed in that order. -/
theorem inOrder_iff_undisturbed {final : Snapshot R} {inserted : List (Nat × R)}
    (wellFormed : snapshot.WellFormed)
    (inserted_ge : ∀ row ∈ inserted, snapshot.nextRowId ≤ row.1)
    (overlaid : final.liveRows.Perm
      (Identified.expand (first.rewrite.overlay second.rewrite) snapshot.liveRows ++ inserted)) :
    (∃ after, inOrder check first second snapshot = .ok after ∧
        final.liveRows.Perm after.liveRows) ↔
      Undisturbed check first second snapshot inserted := by
  have old_lt (f : R → List R) :
      ∀ row ∈ Identified.expand f snapshot.liveRows, row.1 < snapshot.nextRowId := by
    intro row member
    obtain ⟨old, old_member, same⟩ := id_of_mem_expand member
    exact same ▸ id_lt_of_mem_liveRows wellFormed old_member
  have distinct : (snapshot.liveRows.map Prod.fst).Nodup := by
    rw [Snapshot.liveRows_ids]
    exact wellFormed.liveIds_nodup
  have compare {after : Snapshot R} (executed : inOrder check first second snapshot = .ok after) :
      final.liveRows.Perm after.liveRows ↔
        (∀ row ∈ snapshot.liveRows, first.rewrite.Spares second.rewrite row.2) ∧
          (insertedInOrder first second snapshot).Perm inserted := by
    have serial := (liveRows_inOrder wellFormed executed).2
    rw [Rewrite.run_run_eq_flatMap] at serial
    have inOrder_ge : ∀ row ∈ insertedInOrder first second snapshot, snapshot.nextRowId ≤ row.1 :=
      fun _ => id_ge_of_mem_insertedInOrder
    have split := Identified.perm_append_iff (old_lt (first.rewrite.overlay second.rewrite))
      (old_lt fun row => ((first.rewrite.step row).bind second.rewrite.step).toList) inserted_ge
      inOrder_ge
    have rows : final.liveRows.Perm after.liveRows ↔ _ :=
      ⟨fun perm => (overlaid.symm.trans perm).trans serial,
        fun perm => (overlaid.trans perm).trans serial.symm⟩
    rw [rows]
    apply split.trans
    rw [Identified.expand_perm_iff distinct]
    simp only [Identified.perm_toList_iff, Rewrite.overlay_eq_iff]
    constructor
    · rintro ⟨spares, inserts⟩
      exact ⟨spares, inserts.symm⟩
    · rintro ⟨spares, inserts⟩
      exact ⟨spares, inserts.symm⟩
  constructor
  · rintro ⟨after, executed, same⟩
    obtain ⟨spares, inserts⟩ := (compare executed).mp same
    exact ⟨⟨after, executed⟩, spares, inserts⟩
  · intro undisturbed
    obtain ⟨after, executed⟩ := undisturbed.executes
    exact ⟨after, executed, (compare executed).mpr ⟨undisturbed.spares, undisturbed.inserts⟩⟩

/-! ## Interleavings of two clients -/

theorem Client.other_ne (client : Client) : client.other ≠ client := by
  cases client <;> exact nofun

/-- The table holds what executing the statements of the clients in some order leaves. -/
def Serializable (check : CommitCheck R) (statements : Client → Statement R K)
    (table final : Snapshot R) : Prop :=
  ∃ client after, inOrder check (statements client) (statements client.other) table = .ok after ∧
    final.liveRows.Perm after.liveRows

/-- Then no row id is live twice. -/
theorem Serializable.liveIds_nodup {statements : Client → Statement R K} {table final : Snapshot R}
    (serializable : Serializable check statements table final) (wellFormed : table.WellFormed) :
    final.liveIds.Nodup := by
  obtain ⟨client, after, executed, same⟩ := serializable
  have after_wellFormed := (liveRows_inOrder wellFormed executed).1
  rw [← Snapshot.liveRows_ids, (same.map Prod.fst).nodup_iff, Snapshot.liveRows_ids]
  exact after_wellFormed.liveIds_nodup

/-- One client is done before the other one begins. -/
def Sequential (steps : List ClientStep) : Prop :=
  ∃ client : Client, steps = client.script ++ client.other.script

/-- The rows that the clients insert if both locate on the table: those of the client that commits
first come first. -/
def insertedAtOnce (statements : Client → Statement R K) (table : Snapshot R) :
    List ClientStep → List (Nat × R)
  | [] => []
  | .locate _ :: steps => insertedAtOnce statements table steps
  | .commit client :: _ =>
      numberRows table.nextRowId ((statements client).inserts table.liveRows ++
        (statements client.other).inserts table.liveRows)

namespace Mutators

variable {statements : Client → Statement R K} {table : Snapshot R} {final : Mutators R}
  {steps : List ClientStep}

/-- Clients that take turns execute their statements. -/
theorem run_sequential (client : Client)
    (ran : run check statements (start table) (client.script ++ client.other.script) = .ok final) :
    inOrder check (statements client) (statements client.other) table = .ok final.table := by
  simp only [run, Client.script, List.cons_append, List.nil_append, List.foldlM_cons,
    List.foldlM_nil] at ran
  obtain ⟨_, located, ran⟩ := Script.except_bind_eq_ok.mp ran
  obtain ⟨_, committed, ran⟩ := Script.except_bind_eq_ok.mp ran
  obtain ⟨_, located', ran⟩ := Script.except_bind_eq_ok.mp ran
  obtain ⟨_, committed', ran⟩ := Script.except_bind_eq_ok.mp ran
  obtain ⟨change, planned, made⟩ := Script.except_bind_eq_ok.mp located
  obtain rfl := Except.ok.inj made
  obtain ⟨between, published, made⟩ := Script.except_bind_eq_ok.mp committed
  obtain rfl := Except.ok.inj made
  obtain ⟨change', planned', made⟩ := Script.except_bind_eq_ok.mp located'
  obtain rfl := Except.ok.inj made
  obtain ⟨after, published', made⟩ := Script.except_bind_eq_ok.mp committed'
  obtain rfl := Except.ok.inj made
  obtain rfl := Except.ok.inj ran
  simp only [Function.update_self] at published published'
  apply Script.except_bind_eq_ok.mpr
  refine ⟨between, Script.except_bind_eq_ok.mpr ⟨change, planned, published⟩, ?_⟩
  exact Script.except_bind_eq_ok.mpr ⟨change', planned', published'⟩

/-- Clients that both locate before either commits leave their statements laid over each other. -/
theorem run_overlapping (wellFormed : table.WellFormed) (client : Client) {firsts : List ClientStep}
    (firsts_eq : firsts = [.locate client, .locate client.other] ∨
      firsts = [.locate client.other, .locate client])
    (ran : run check statements (start table) (firsts ++ [.commit client, .commit client.other]) =
      .ok final) :
    final.table.liveRows.Perm
      (Identified.expand
          ((statements client).rewrite.overlay (statements client.other).rewrite) table.liveRows ++
        numberRows table.nextRowId ((statements client).inserts table.liveRows ++
          (statements client.other).inserts table.liveRows)) := by
  have other_ne := client.other_ne
  obtain ⟨change, planned, change', planned', located⟩ : ∃ change,
      (statements client).plan table = .ok change ∧ ∃ change',
        (statements client.other).plan table = .ok change' ∧
          ∃ between : Mutators R, between.table = table ∧ between.located client = change ∧
            between.located client.other = change' ∧
              [ClientStep.commit client, .commit client.other].foldlM
                (perform check statements) between = .ok final := by
    rw [run, List.foldlM_append] at ran
    obtain ⟨between, located, ran⟩ := Script.except_bind_eq_ok.mp ran
    rcases firsts_eq with rfl | rfl
    · simp only [List.foldlM_cons, List.foldlM_nil] at located
      obtain ⟨_, one, located⟩ := Script.except_bind_eq_ok.mp located
      obtain ⟨_, two, located⟩ := Script.except_bind_eq_ok.mp located
      obtain ⟨change, planned, made⟩ := Script.except_bind_eq_ok.mp one
      obtain rfl := Except.ok.inj made
      obtain ⟨change', planned', made⟩ := Script.except_bind_eq_ok.mp two
      obtain rfl := Except.ok.inj made
      obtain rfl := Except.ok.inj located
      refine ⟨change, planned, change', planned', _, rfl, ?_, ?_, ran⟩
      · simp [Function.update_of_ne other_ne.symm]
      · simp
    · simp only [List.foldlM_cons, List.foldlM_nil] at located
      obtain ⟨_, one, located⟩ := Script.except_bind_eq_ok.mp located
      obtain ⟨_, two, located⟩ := Script.except_bind_eq_ok.mp located
      obtain ⟨change', planned', made⟩ := Script.except_bind_eq_ok.mp one
      obtain rfl := Except.ok.inj made
      obtain ⟨change, planned, made⟩ := Script.except_bind_eq_ok.mp two
      obtain rfl := Except.ok.inj made
      obtain rfl := Except.ok.inj located
      refine ⟨change, planned, change', planned', _, rfl, ?_, ?_, ran⟩
      · simp
      · simp [Function.update_of_ne other_ne]
  obtain ⟨between, rfl, rfl, rfl, ran⟩ := located
  simp only [List.foldlM_cons, List.foldlM_nil] at ran
  obtain ⟨_, committed, ran⟩ := Script.except_bind_eq_ok.mp ran
  obtain ⟨_, committed', ran⟩ := Script.except_bind_eq_ok.mp ran
  obtain ⟨middle, published, made⟩ := Script.except_bind_eq_ok.mp committed
  obtain rfl := Except.ok.inj made
  obtain ⟨after, published', made⟩ := Script.except_bind_eq_ok.mp committed'
  obtain rfl := Except.ok.inj made
  obtain rfl := Except.ok.inj ran
  exact liveRows_overlaid wellFormed planned planned' published published'

theorem overlay_rows_perm {rows : List (Nat × R)} (distinct : (rows.map Prod.fst).Nodup) :
    (Identified.expand (first.rewrite.overlay second.rewrite) rows).Perm
      (Identified.expand (second.rewrite.overlay first.rewrite) rows) :=
  (Identified.expand_perm_iff distinct).mpr fun row _ => Rewrite.overlay_perm_comm row.2

/-- Two clients that both succeed leave what some order of their statements leaves exactly if they
take turns, or if there is an order in which the second statement is not disturbed by what the first
one did. -/
theorem serializable_iff (wellFormed : table.WellFormed)
    (interleaves : Run.Interleaves Client.left.script Client.right.script steps)
    (ran : run check statements (start table) steps = .ok final) :
    Serializable check statements table final.table ↔
      Sequential steps ∨ ∃ client : Client,
        Undisturbed check (statements client) (statements client.other) table
          (insertedAtOnce statements table steps) := by
  have distinct : (table.liveRows.map Prod.fst).Nodup := by
    rw [Snapshot.liveRows_ids]
    exact wellFormed.liveIds_nodup
  have taking_turns (client : Client) (steps_eq : steps = client.script ++ client.other.script) :
      Serializable check statements table final.table := by
    subst steps_eq
    exact ⟨client, final.table, run_sequential client ran, .refl _⟩
  -- the client that commits first
  have overlapping (client : Client) {firsts : List ClientStep}
      (firsts_eq : firsts = [.locate client, .locate client.other] ∨
        firsts = [.locate client.other, .locate client])
      (steps_eq : steps = firsts ++ [.commit client, .commit client.other]) :
      Serializable check statements table final.table ↔ ∃ client : Client,
        Undisturbed check (statements client) (statements client.other) table
          (insertedAtOnce statements table steps) := by
    subst steps_eq
    have overlaid := run_overlapping wellFormed client firsts_eq ran
    have inserted_eq : insertedAtOnce statements table
        (firsts ++ [.commit client, .commit client.other]) =
          numberRows table.nextRowId ((statements client).inserts table.liveRows ++
            (statements client.other).inserts table.liveRows) := by
      rcases firsts_eq with rfl | rfl <;> rfl
    rw [← inserted_eq] at overlaid
    have inserted_ge : ∀ row ∈ insertedAtOnce statements table
        (firsts ++ [.commit client, .commit client.other]), table.nextRowId ≤ row.1 := by
      rw [inserted_eq]
      exact fun _ => id_ge_of_mem_numberRows
    apply exists_congr
    intro order
    apply inOrder_iff_undisturbed wellFormed inserted_ge
    rcases eq_or_ne order client with rfl | other
    · exact overlaid
    · obtain rfl : order = client.other := by
        cases order <;> cases client <;> first | rfl | exact absurd rfl other
      have swapped : client.other.other = client := by cases client <;> rfl
      rw [swapped]
      exact overlaid.trans ((overlay_rows_perm distinct).append_right _)
  constructor
  · intro serializable
    rcases interleaves.of_pairs with steps_eq | steps_eq | ⟨firsts, seconds, firsts_eq, seconds_eq,
      steps_eq⟩
    · exact .inl ⟨.left, steps_eq⟩
    · exact .inl ⟨.right, steps_eq⟩
    · rcases seconds_eq with rfl | rfl
      · exact .inr ((overlapping .left firsts_eq steps_eq).mp serializable)
      · exact .inr ((overlapping .right firsts_eq.symm steps_eq).mp serializable)
  · intro condition
    rcases interleaves.of_pairs with steps_eq | steps_eq | ⟨firsts, seconds, firsts_eq, seconds_eq,
      steps_eq⟩
    · exact taking_turns .left steps_eq
    · exact taking_turns .right steps_eq
    · have overlapped : ¬ Sequential steps := by
        rintro ⟨client, same⟩
        rw [steps_eq] at same
        rcases firsts_eq with rfl | rfl <;> rcases seconds_eq with rfl | rfl <;> cases client <;>
          simp [Client.script, Client.other] at same
      have undisturbed := condition.resolve_left overlapped
      rcases seconds_eq with rfl | rfl
      · exact (overlapping .left firsts_eq steps_eq).mpr undisturbed
      · exact (overlapping .right firsts_eq.symm steps_eq).mpr undisturbed

end Mutators

/-! ## Updates of integers -/

namespace Integers

/-- A table with a fragment of two rows. -/
def fragmentOfTwo : Snapshot Int :=
  { fragments := [{ id := 0, rows := [(0, 10), (1, 20)], deleted := ∅ }]
    nextFragmentId := 1
    nextRowId := 2
    rowIndex := none }

theorem wellFormed_fragmentOfTwo : fragmentOfTwo.WellFormed where
  fragmentIds_nodup := by decide
  fragmentIds_lt := by simp [fragmentOfTwo]
  rowIds_lt := by decide
  liveIds_nodup := by decide

/-- Replace one value by another one. -/
def replaceValue (old new : Int) : Statement Int Int :=
  .update (fun value => value = old) fun _ => new

/-- The index checks find nothing to object to. -/
def accept : CommitCheck Int :=
  fun _ _ => .ok ()

/-- Both clients locate, and then the left one commits before the right one. -/
def overlapping : List ClientStep :=
  [.locate .left, .locate .right, .commit .left, .commit .right]

theorem interleaves_overlapping :
    Run.Interleaves Client.left.script Client.right.script overlapping :=
  .left (.right (.left (.right .nil)))

/-- Clients that update different rows. -/
def updateBoth : Client → Statement Int Int
  | .left => replaceValue 10 11
  | .right => replaceValue 20 21

theorem updateBoth_serializable : ∃ final,
    Mutators.run accept updateBoth (.start fragmentOfTwo) overlapping = .ok final ∧
      Serializable accept updateBoth fragmentOfTwo final.table := by
  refine ⟨_, rfl, (Mutators.serializable_iff wellFormed_fragmentOfTwo interleaves_overlapping
    rfl).mpr (.inr ⟨.left, ⟨_, rfl⟩, ?_, ?_⟩)⟩
  · intro row member
    have rows_eq : fragmentOfTwo.liveRows = [(0, 10), (1, 20)] := rfl
    rw [rows_eq] at member
    simp only [List.mem_cons, List.not_mem_nil, or_false] at member
    rcases member with rfl | rfl
    · simp [updateBoth, replaceValue, Client.other, Statement.rewrite, Rewrite.Spares, Rewrite.step]
    · simp [updateBoth, replaceValue, Client.other, Statement.rewrite, Rewrite.Spares]
  · exact .refl _

/-- Clients that update the same row. -/
def updateSame : Client → Statement Int Int
  | .left => replaceValue 10 11
  | .right => replaceValue 10 12

/-- Both new versions of the row are live, under one row id. -/
theorem updateSame_not_serializable : ∃ final,
    Run.Interleaves Client.left.script Client.right.script overlapping ∧
      Mutators.run accept updateSame (.start fragmentOfTwo) overlapping = .ok final ∧
        final.table.liveRows = [(1, 20), (0, 11), (0, 12)] ∧
          ¬ Serializable accept updateSame fragmentOfTwo final.table := by
  refine ⟨_, interleaves_overlapping, rfl, rfl, ?_⟩
  intro serializable
  have distinct := serializable.liveIds_nodup wellFormed_fragmentOfTwo
  revert distinct
  decide

end Integers

end IcefallDB
