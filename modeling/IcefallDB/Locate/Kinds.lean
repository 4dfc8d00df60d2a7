import IcefallDB.Locate.Agreement

/-!
# Literals of the kind of their column

An index has texts, and a predicate compares values.  If the literals are of the kind of the indexed
column, integers or texts, then values are equal exactly if their texts are.
-/

namespace IcefallDB

/-! ## Kinds of values -/

namespace IndexValue

/-- The text of a text value. -/
def text : IndexValue → Option String
  | .utf8 value | .largeUtf8 value => some value
  | .null | .int64 _ | .uint64 _ | .other _ => none

/-- A cell and a literal are both integers or both texts, or the cell is null. -/
inductive Comparable : IndexValue → IndexValue → Prop
  | null {literal : IndexValue} : Comparable .null literal
  | int64 {cell literal : Int64} : Comparable (.int64 cell) (.int64 literal)
  | text {cell literal : IndexValue} {cellText literalText : String}
      (cell_eq : cell.text = some cellText) (literal_eq : literal.text = some literalText) :
      Comparable cell literal

theorem key_of_text {value : IndexValue} {own : String} (found : value.text = some own) :
    value.key = some own := by
  cases value with
  | utf8 value => exact found
  | largeUtf8 value => exact found
  | null => cases found
  | int64 value => cases found
  | uint64 value => cases found
  | other name => cases found

end IndexValue

/-- Integers are compared as integers and texts as texts, and nothing equals null. -/
structure EqualityEngine.Exact (engine : EqualityEngine) : Prop where
  null : ∀ literal, engine .null literal = none
  int64 : ∀ cell literal, engine (.int64 cell) (.int64 literal) = some (decide (cell = literal))
  text : ∀ cell literal cellText literalText, cell.text = some cellText →
    literal.text = some literalText → engine cell literal = some (decide (cellText = literalText))

/-- The index is a learned model. -/
def SnapshotIndex.isLearned : SnapshotIndex → Bool
  | .learned _ _ => true
  | .json _ _ | .binary _ _ _ => false

theorem parseI64_int64 (value : Int64) :
    parseI64 (toString value.toInt).toList = some value.toInt :=
  parseI64_toString (Int64.le_toInt value) (Int64.toInt_lt value)

theorem toString_int64_inj {first second : Int64} :
    toString first.toInt = toString second.toInt ↔ first = second := by
  constructor
  · intro same
    have parsed := parseI64_int64 first
    rw [same, parseI64_int64] at parsed
    exact Int64.toInt_inj.mp (Option.some.inj parsed).symm
  · rintro rfl
    rfl

theorem SnapshotIndex.reaches_int64 {index : SnapshotIndex} {cell literal : Int64} :
    index.Reaches (toString literal.toInt) (toString cell.toInt) ↔ cell = literal := by
  have texts : toString literal.toInt = toString cell.toInt ↔ cell = literal :=
    toString_int64_inj.trans eq_comm
  cases index with
  | json column entries => exact texts
  | binary column base overlay => exact texts
  | learned column model =>
      rw [Reaches, parseI64_int64, parseI64_int64]
      constructor
      · rintro ⟨number, literal_eq, cell_eq⟩
        exact Int64.toInt_inj.mp (Option.some.inj (cell_eq.trans literal_eq.symm))
      · rintro rfl
        exact ⟨_, rfl, rfl⟩

theorem SnapshotIndex.reaches_of_not_learned {index : SnapshotIndex}
    (kept : index.isLearned = false) {key text : String} : index.Reaches key text ↔ key = text := by
  cases index with
  | json column entries => exact Iff.rfl
  | binary column base overlay => exact Iff.rfl
  | learned column model => cases kept

/-- A cell equals a literal if the index is looked up where the cell is. -/
theorem EqualityEngine.Exact.eq_true_iff {engine : EqualityEngine} (exact_engine : engine.Exact)
    {index : SnapshotIndex} {cell literal : IndexValue} (kind : cell.Comparable literal)
    (integers : index.isLearned = true → cell.text = none) :
    engine cell literal = some true ↔
      ∃ text ∈ cell.key, ∃ key ∈ literal.key, index.Reaches key text := by
  cases kind with
  | null =>
      rw [exact_engine.null]
      constructor
      · intro absurd_eq
        cases absurd_eq
      · rintro ⟨text, absurd_mem, -⟩
        cases absurd_mem
  | int64 =>
      rw [exact_engine.int64, Option.some.injEq, decide_eq_true_eq]
      constructor
      · intro same
        exact ⟨_, rfl, _, rfl, SnapshotIndex.reaches_int64.mpr same⟩
      · rintro ⟨text, text_eq, key, key_eq, reached⟩
        obtain rfl := Option.some.inj text_eq
        obtain rfl := Option.some.inj key_eq
        exact SnapshotIndex.reaches_int64.mp reached
  | text cell_eq literal_eq =>
      have kept : index.isLearned = false := by
        rw [Bool.eq_false_iff]
        intro learned
        rw [integers learned] at cell_eq
        cases cell_eq
      rw [exact_engine.text _ _ _ _ cell_eq literal_eq, Option.some.injEq, decide_eq_true_eq,
        IndexValue.key_of_text cell_eq, IndexValue.key_of_text literal_eq]
      constructor
      · rintro rfl
        exact ⟨_, rfl, _, rfl, (SnapshotIndex.reaches_of_not_learned kept).mpr rfl⟩
      · rintro ⟨text, text_eq, key, key_eq, reached⟩
        obtain rfl := Option.some.inj text_eq
        obtain rfl := Option.some.inj key_eq
        exact ((SnapshotIndex.reaches_of_not_learned kept).mp reached).symm

/-! ## Predicates of literals -/

namespace LocateTable

theorem disjunction_eq_true_iff {left right : Option Bool} :
    disjunction left right = some true ↔ left = some true ∨ right = some true := by
  rcases left with _ | _ | _ <;> rcases right with _ | _ | _ <;> simp [disjunction]

/-- A disjunction is true if some of its parts is. -/
theorem foldr_disjunction_eq_true_iff {α : Type} (holds : α → Option Bool) (items : List α) :
    items.foldr (fun item found => disjunction (holds item) found) (some false) = some true ↔
      ∃ item ∈ items, holds item = some true := by
  induction items with
  | nil => simp
  | cons item items ih =>
      rw [List.foldr_cons, disjunction_eq_true_iff, ih, List.exists_mem_cons_iff]

theorem exists_literal_of_scalarToString {operand : OperandExpr} {key : String}
    (found : IndexSelector.scalarToString operand = some key) :
    ∃ value, operand = .literal value ∧ value.key = some key := by
  cases operand with
  | literal value => exact ⟨value, rfl, found⟩
  | column name => cases found
  | other value => cases found

variable {table : LocateTable} {index : SnapshotIndex} {predicate : PredicateExpr}

/-- A predicate that an index answers compares the indexed column with literals. -/
theorem satisfies_iff_of_answers {rowIds : Finset Nat}
    (answers : IndexSelector.indexEqualityLookup index predicate = some rowIds)
    {engine : EqualityEngine} {row : LocatedRow IndexValue} :
    table.Satisfies engine predicate row ↔ ∃ value, .literal value ∈ predicate.literals ∧
      engine (table.indexedCell index row) value = some true := by
  unfold IndexSelector.indexEqualityLookup at answers
  split at answers
  · next name right =>
      obtain ⟨same, answers⟩ := Option.ite_none_left_eq_some.mp answers
      rw [not_not] at same
      obtain ⟨key, key_eq, -⟩ := Option.bind_eq_some_iff.mp answers
      obtain ⟨value, rfl, -⟩ := exists_literal_of_scalarToString key_eq
      rw [Satisfies, evaluate, same]
      constructor
      · intro equal
        exact ⟨value, List.mem_singleton_self _, equal⟩
      · rintro ⟨other, listed, equal⟩
        obtain rfl := OperandExpr.literal.inj (List.mem_singleton.mp listed)
        exact equal
  · next name list =>
      obtain ⟨same, answers⟩ := Option.ite_none_left_eq_some.mp answers
      rw [not_not] at same
      obtain ⟨postings, postings_eq, -⟩ := Option.bind_eq_some_iff.mp answers
      have beside := List.forall₂_of_mapM_eq_some postings_eq
      rw [Satisfies, evaluate, same]
      rw [if_neg Bool.false_ne_true, foldr_disjunction_eq_true_iff]
      constructor
      · rintro ⟨item, listed, equal⟩
        obtain ⟨own, -, looked_up⟩ := beside.exists_of_mem_left listed
        obtain ⟨key, key_eq, -⟩ := Option.bind_eq_some_iff.mp looked_up
        obtain ⟨value, rfl, -⟩ := exists_literal_of_scalarToString key_eq
        exact ⟨value, listed, equal⟩
      · rintro ⟨value, listed, equal⟩
        exact ⟨_, listed, equal⟩
  · cases answers

variable (table) in
/-- The literals of a predicate are of the kind of the indexed column, and a learned model is of
integers. -/
def ComparesKinds (index : SnapshotIndex) (predicate : PredicateExpr) : Prop :=
  ∀ row ∈ table.liveRows, (∀ value, .literal value ∈ predicate.literals →
    (table.indexedCell index row).Comparable value) ∧
      (index.isLearned = true → (table.indexedCell index row).text = none)

/-- An index with literals of the kind of its column is looked up where the rows that satisfy a
predicate are. -/
theorem reaches_iff_satisfies {rowIds : Finset Nat}
    (answers : IndexSelector.indexEqualityLookup index predicate = some rowIds)
    (kinds : table.ComparesKinds index predicate) {engine : EqualityEngine}
    (exact_engine : engine.Exact) {row : LocatedRow IndexValue} (alive : row ∈ table.liveRows) :
    (∃ text ∈ table.indexText index row, predicate.Reaches index text) ↔
      table.Satisfies engine predicate row := by
  obtain ⟨kind_of, integers⟩ := kinds row alive
  rw [satisfies_iff_of_answers answers]
  constructor
  · rintro ⟨text, text_eq, literal, listed, key, key_eq, reached⟩
    obtain ⟨value, rfl, value_key⟩ := exists_literal_of_scalarToString key_eq
    exact ⟨value, listed, (exact_engine.eq_true_iff (kind_of value listed) integers).mpr
      ⟨text, text_eq, key, value_key, reached⟩⟩
  · rintro ⟨value, listed, equal⟩
    obtain ⟨text, text_eq, key, key_eq, reached⟩ :=
      (exact_engine.eq_true_iff (kind_of value listed) integers).mp equal
    exact ⟨text, text_eq, .literal value, listed, key, key_eq, reached⟩

variable (table) in
/-- Live rows with the same row id are the same. -/
def DistinctIds : Prop :=
  ∀ row ∈ table.liveRows, ∀ other ∈ table.liveRows, ∀ rowId,
    rowIdOf row = some rowId → rowIdOf other = some rowId → other = row

/-- Locating by an index and by a scan agree exactly if fragment ids have 32 bits and the rows that
satisfy the predicate are those that the lookup finds.  They do so if the literals are of the kind
of the indexed column, row ids differ and the rows have row ids at their offsets. -/
theorem WellFormed.locate_agree (wf : table.WellFormed) {indexes : List SnapshotIndex}
    (consistent : ∀ index ∈ indexes, table.IndexConsistent index) {locs : List MatchLoc}
    (located : table.tryLocateByIndex indexes predicate = some locs)
    (splits : Option (Nat → Nat)) (engine : EqualityEngine) :
    (table.LocatesAlike splits engine predicate locs ↔
      (∀ row ∈ table.liveRows, row.1.fragmentId < 2 ^ 32) ∧
        ∀ row ∈ table.liveRows, table.Satisfies engine predicate row ↔
          table.IsIndexed indexes predicate row) ∧
      (engine.Exact → (∀ index ∈ answering indexes predicate, table.ComparesKinds index predicate) →
        (∀ row ∈ table.liveRows, row.1.fragmentId < 2 ^ 32) → table.DistinctIds →
        (∀ row ∈ table.liveRows, table.Satisfies engine predicate row →
          ∃ rowId, IsFound row rowId) →
          table.LocatesAlike splits engine predicate locs) := by
  have alike := @WellFormed.locatesAlike_iff table wf indexes consistent predicate locs located
    splits engine
  refine ⟨alike, ?_⟩
  intro exact_engine kinds small distinct identified
  rw [alike]
  refine ⟨small, ?_⟩
  intro row alive
  obtain ⟨rowIds, looked_up, -⟩ := Option.bind_eq_some_iff.mp located
  obtain ⟨index, -, answers, used⟩ := exists_find?_of_findSome? looked_up
  have satisfies := @reaches_iff_satisfies table index predicate rowIds answers
    (kinds index used) engine exact_engine
  constructor
  · intro satisfied
    obtain ⟨rowId, own⟩ := identified row alive satisfied
    exact ⟨rowId, own, index, used, row, alive, own.1, (satisfies alive).mpr satisfied⟩
  · rintro ⟨rowId, own, answer, used_too, other, other_alive, id_eq, reached⟩
    obtain rfl := Option.some.inj (used.symm.trans used_too)
    obtain rfl := distinct row alive other other_alive rowId own.1 id_eq
    exact (satisfies alive).mp reached

end LocateTable

/-! ## Some tables -/

namespace KeyedRows

open LocateTable Integers

/-- Values of one kind are compared, and others differ. -/
def valueEquality : EqualityEngine
  | .null, _ => none
  | _, .null => none
  | .int64 left, .int64 right => some (decide (left = right))
  | left, right => some (left.text.any fun own => right.text = some own)

theorem valueEquality_exact : valueEquality.Exact where
  null _ := rfl
  int64 _ _ := rfl
  text cell literal cellText literalText cell_eq literal_eq := by
    cases cell <;> cases literal <;> cases cell_eq <;> cases literal_eq <;>
      simp [valueEquality, IndexValue.text, eq_comm]

/-- A row with a key. -/
def keyed (key : String) : DataRow IndexValue :=
  fun _ => .utf8 key

/-- An index with the row ids of one key. -/
def keyIndex (rowIds : List Nat) : SnapshotIndex :=
  .json "k" (AList.singleton "y" rowIds : HashMap String (List Nat))

theorem keyIndex_consistent {table : LocateTable} {rowIds : List Nat}
    (texts : ∀ row ∈ table.liveRows, table.indexText (keyIndex rowIds) row = some "y")
    (ids : ∀ row ∈ table.liveRows, ∀ rowId, rowIdOf row = some rowId → rowId ∈ rowIds) :
    table.IndexConsistent (keyIndex rowIds) := by
  intro text postings found rowId ⟨row, alive, id_eq⟩
  obtain rfl := Option.some.inj found
  by_cases same : text = "y"
  · subst same
    exact ⟨fun _ => ⟨row, alive, id_eq, texts row alive⟩, fun _ => ids row alive rowId id_eq⟩
  · have absent : (AList.singleton "y" rowIds : HashMap String (List Nat)).lookup text = none := by
      rw [AList.lookup_eq_none, AList.mem_keys]
      simpa [AList.keys_singleton] using same
    rw [absent]
    constructor
    · intro absurd_mem
      cases absurd_mem
    · rintro ⟨other, other_alive, -, text_eq⟩
      exact absurd (Option.some.inj (text_eq.symm.trans (texts other other_alive))) same

/-- A row group whose first row is deleted. -/
def updatedGroup : PlannedRowGroup :=
  let group := scannedGroup 1 2 (some "deletes") [.range 7 2]
  { group with entry := { group.entry with deletedCount := 1 } }

/-- The row 7 has been moved from the first row group to the second one, with another key. -/
def updatedTable : LocateTable where
  names := ["k"]
  groups := [(updatedGroup, [keyed "x", keyed "y"]),
    (scannedGroup 2 1 none [.sorted [7]], [keyed "y"])]
  vectors _ := {0}

/-- A predicate `k IN ('x', 'y')`. -/
def keyPredicate : PredicateExpr :=
  .inList (.column "k") [.literal (.utf8 "x"), .literal (.utf8 "y")] false

theorem forall_mem_liveRows_updatedTable {p : LocatedRow IndexValue → Prop}
    (first : p (ScanSelection.contents updatedTable.vectors updatedGroup [keyed "x", keyed "y"],
      keyed "y", 1))
    (second : p (ScanSelection.contents updatedTable.vectors
      (scannedGroup 2 1 none [.sorted [7]]) [keyed "y"], keyed "y", 0)) :
    ∀ row ∈ updatedTable.liveRows, p row := by
  have rows : updatedTable.liveRows = [_, _] := rfl
  rw [rows]
  exact List.forall_mem_cons.mpr ⟨first, List.forall_mem_singleton.mpr second⟩

theorem updatedTable_wellFormed : updatedTable.WellFormed where
  fragments := by decide
  sorted := by simp [updatedTable, updatedGroup, scannedGroup]
  covered := by simp [updatedTable, updatedGroup, scannedGroup, expand, segmentIds]
  offsets := by simp [updatedTable]
  counted := by simp [updatedTable, updatedGroup, scannedGroup]

theorem tryLocateByIndex_updatedTable :
    updatedTable.tryLocateByIndex [keyIndex [8, 7]] keyPredicate =
      some [⟨2, 0, 7⟩, ⟨1, 1, 8⟩] := by
  have looked_up : [keyIndex [8, 7]].findSome? (fun index =>
      IndexSelector.indexEqualityLookup index keyPredicate) = some [7, 8].toFinset := by decide
  have sorted : [7, 8].toFinset.sort (· ≤ ·) = [7, 8] :=
    (List.toFinset_sort (· ≤ ·) (by decide)).mpr (by decide)
  rw [tryLocateByIndex, looked_up, Option.bind_eq_bind, Option.bind_some, sorted]
  decide

/-- The moved row is located in its new fragment both ways. -/
theorem locate_updatedTable :
    updatedTable.LocatesAlike none valueEquality keyPredicate [⟨2, 0, 7⟩, ⟨1, 1, 8⟩] := by
  have consistent : updatedTable.IndexConsistent (keyIndex [8, 7]) := by
    apply keyIndex_consistent
    · exact forall_mem_liveRows_updatedTable rfl rfl
    · apply forall_mem_liveRows_updatedTable
      · rintro rowId same
        obtain rfl := Option.some.inj same
        decide
      · rintro rowId same
        obtain rfl := Option.some.inj same
        decide
  have kinds : updatedTable.ComparesKinds (keyIndex [8, 7]) keyPredicate := by
    have texts : ∀ value, OperandExpr.literal value ∈ keyPredicate.literals →
        (IndexValue.utf8 "y").Comparable value := by
      simp only [keyPredicate, PredicateExpr.literals, List.mem_cons, List.not_mem_nil, or_false,
        OperandExpr.literal.injEq]
      rintro value (rfl | rfl)
      · exact .text rfl rfl
      · exact .text rfl rfl
    apply forall_mem_liveRows_updatedTable
    · exact ⟨texts, nofun⟩
    · exact ⟨texts, nofun⟩
  apply (updatedTable_wellFormed.locate_agree
    (List.forall_mem_singleton.mpr consistent) tryLocateByIndex_updatedTable none
    valueEquality).2 valueEquality_exact
  · intro index used
    obtain rfl := Option.some.inj used
    exact kinds
  · exact forall_mem_liveRows_updatedTable (by decide) (by decide)
  · apply forall_mem_liveRows_updatedTable
    · apply forall_mem_liveRows_updatedTable
      · intro _ _ _
        rfl
      · rintro _ ⟨⟩ ⟨⟩
    · apply forall_mem_liveRows_updatedTable
      · rintro _ ⟨⟩ ⟨⟩
      · intro _ _ _
        rfl
  · apply forall_mem_liveRows_updatedTable
    · exact fun _ => ⟨8, rfl, rfl⟩
    · exact fun _ => ⟨7, rfl, rfl⟩

/-- A table of one row. -/
def oneRowTable (fragmentId : Nat) (rowIds : List RowIdSegment) : LocateTable where
  names := ["k"]
  groups := [(scannedGroup fragmentId 1 none rowIds, [keyed "y"])]
  vectors _ := ∅

theorem oneRowTable_wellFormed {fragmentId : Nat} {rowIds : List RowIdSegment}
    (sorted : ∀ ids, .sorted ids ∈ rowIds → ∀ id ∈ ids, id < 2 ^ 64)
    (few : (expand rowIds).length ≤ 1) :
    (oneRowTable fragmentId rowIds).WellFormed where
  fragments := List.nodup_singleton _
  sorted := List.forall_mem_singleton.mpr sorted
  covered := List.forall_mem_singleton.mpr few
  offsets := List.forall_mem_singleton.mpr (Nat.one_le_two_pow)
  counted := by simp [oneRowTable, scannedGroup]

theorem oneRowTable_consistent {fragmentId : Nat} {segments : List RowIdSegment} {rowIds : List Nat}
    (ids : ∀ rowId, rowIdAtOffset segments 0 = some rowId → rowId ∈ rowIds) :
    (oneRowTable fragmentId segments).IndexConsistent (keyIndex rowIds) :=
  keyIndex_consistent (List.forall_mem_singleton.mpr rfl) (List.forall_mem_singleton.mpr ids)

/-- The address of a row of the fragment 2^32 is that of a row of the fragment 0, and an index does
not have the rows of a legacy fragment, while a scan returns them. -/
theorem locate_differs :
    ((oneRowTable (2 ^ 32) [.sorted [7]]).WellFormed ∧
      (oneRowTable (2 ^ 32) [.sorted [7]]).IndexConsistent (keyIndex [7]) ∧
      (oneRowTable (2 ^ 32) [.sorted [7]]).tryLocateByIndex [keyIndex [7]] keyPredicate =
        some [⟨2 ^ 32, 0, 7⟩] ∧
      (oneRowTable (2 ^ 32) [.sorted [7]]).locateByScan none valueEquality keyPredicate =
        some [⟨0, 0, 7⟩]) ∧
    (oneRowTable 1 []).WellFormed ∧ (oneRowTable 1 []).IndexConsistent (keyIndex []) ∧
      (oneRowTable 1 []).tryLocateByIndex [keyIndex []] keyPredicate = some [] ∧
      (oneRowTable 1 []).locateByScan none valueEquality keyPredicate = some [⟨1, 0, 0⟩] := by
  have single : [7].toFinset.sort (· ≤ ·) = [7] :=
    (List.toFinset_sort (· ≤ ·) (by decide)).mpr (by decide)
  have empty : ([] : List Nat).toFinset.sort (· ≤ ·) = [] :=
    (List.toFinset_sort (· ≤ ·) (by decide)).mpr (by decide)
  have found : [keyIndex [7]].findSome? (fun index =>
      IndexSelector.indexEqualityLookup index keyPredicate) = some [7].toFinset := by decide
  have none_found : [keyIndex []].findSome? (fun index =>
      IndexSelector.indexEqualityLookup index keyPredicate) = some ([] : List Nat).toFinset := by
    decide
  refine ⟨⟨?_, ?_, ?_, by decide⟩, ?_, ?_, ?_, by decide⟩
  · exact oneRowTable_wellFormed (by simp) (by decide)
  · apply oneRowTable_consistent
    rintro rowId same
    obtain rfl := Option.some.inj same
    decide
  · rw [tryLocateByIndex, found, Option.bind_eq_bind, Option.bind_some, single]
    decide
  · exact oneRowTable_wellFormed (by simp) (by decide)
  · exact oneRowTable_consistent nofun
  · rw [tryLocateByIndex, none_found, Option.bind_eq_bind, Option.bind_some, empty]
    decide

end KeyedRows

end IcefallDB
