import IcefallDB.MetadataAggregate.Answers
import IcefallDB.MetadataAggregate.Grouped
import Mathlib

/-!
# What merged groups are from

The partial aggregates of the groups of a fragment, with the deleted rows retracted, are of its live
rows.  Merging them over the fragments leaves out those that do not fit.
-/

namespace IcefallDB

variable {R F : Type}

namespace AggCache

variable {kernel : NumericKernel R F} {column : KeyColumn R} {key name : String}

theorem perm_ints_append {rows part rest : List R} (perm : rows.Perm (part ++ rest)) :
    (ints kernel name rows).Perm (ints kernel name part ++ ints kernel name rest) := by
  have values := perm.map (kernel.intValue name)
  rw [List.map_append] at values
  rw [ints, ints, ints, ← List.reduceOption_append]
  exact values.filterMap id

/-- The values of a column of a group. -/
def groupInts (kernel : NumericKernel R F) (column : KeyColumn R) (key name : String)
    (rows : List R) : List Int :=
  ints kernel name (groupMembers column key rows)

theorem squares_le_of_perm {all part rest : List Int} (perm : all.Perm (part ++ rest)) :
    Moments.squares rest ≤ Moments.squares all := by
  rw [Moments.squares_perm perm, Moments.squares_append]
  have part_nonneg := Moments.squares_nonneg part
  omega

variable {row : R}

theorem groupInts_cons_of_eq {rows : List R}
    (text : arrowScalarToGroupKeyString (column.value row) = some key) :
    groupInts kernel column key name (row :: rows) =
      (kernel.intValue name row).toList ++ groupInts kernel column key name rows := by
  have members : groupMembers column key (row :: rows) = row :: groupMembers column key rows :=
    List.filter_cons_of_pos (by simpa using text)
  rw [groupInts, members, ints, List.map_cons]
  cases kernel.intValue name row with
  | none => exact List.reduceOption_cons_of_none _
  | some value => exact List.reduceOption_cons_of_some _ _

theorem groupInts_cons_of_ne {rows : List R}
    (text : arrowScalarToGroupKeyString (column.value row) ≠ some key) :
    groupInts kernel column key name (row :: rows) = groupInts kernel column key name rows := by
  have members : groupMembers column key (row :: rows) = groupMembers column key rows :=
    List.filter_cons_of_neg (by simpa using text)
  rw [groupInts, members]
  rfl

section

variable [Double F]

/-! ## Retraction -/

theorem lookup_retractMeasure_of_ne (cols : HashMap String (ColAgg F)) (row : R) {other : String}
    (different : name ≠ other) :
    (retractMeasure kernel row cols other).lookup name = cols.lookup name := by
  unfold retractMeasure
  split
  · rfl
  · split
    · rfl
    · split
      · rfl
      · split
        · exact AList.lookup_insert_ne different
        · exact AList.lookup_erase_ne different

/-- A null takes nothing off its column. -/
theorem lookup_retractMeasure_of_null (integer : kernel.IsInteger name)
    (cols : HashMap String (ColAgg F)) (null : kernel.intValue name row = none) :
    (retractMeasure kernel row cols name).lookup name = cols.lookup name := by
  obtain ⟨kind, found, not_float⟩ := integer
  have deleted : computeCol (kernel.array name kind [row]) = some (ColAgg.allNull (F := F)) := by
    rw [MetadataAggregate.array_of_ne_float not_float, computeCol, List.map_singleton, null]
    rfl
  rw [retractMeasure, found, Option.bind_some, deleted]
  rfl

/-- A value is taken off the aggregates of its column. -/
theorem lookup_retractMeasure_of_value (integer : kernel.IsInteger name)
    {cols : HashMap String (ColAgg F)} {value : Int} {all rest : List Int}
    (value_eq : kernel.intValue name row = some value) (perm : all.Perm (value :: rest))
    (fits : Moments.squares all < bound128) (full : cols.lookup name = some (liveCol all)) :
    (retractMeasure kernel row cols name).lookup name = some (liveCol rest) := by
  obtain ⟨kind, found, not_float⟩ := integer
  have small : Moments.squares [value] < bound128 := by
    have split := Moments.squares_perm perm
    have rest_nonneg := Moments.squares_nonneg rest
    rw [Moments.squares_cons] at split
    simp only [Moments.squares_cons, Moments.squares_nil]
    omega
  have deleted : computeCol (kernel.array name kind [row]) = some (liveCol (F := F) [value]) := by
    rw [MetadataAggregate.array_of_ne_float not_float, computeCol, List.map_singleton, value_eq,
      computeSignedIntCol_eq]
    exact if_pos small
  have left : retractCol (F := F) (liveCol all)
      (if [value] = [] then ColAgg.allNull else liveCol [value]) = some (liveCol rest) :=
    retractCol_liveCol perm fits
  rw [if_neg (List.cons_ne_nil _ _)] at left
  rw [retractMeasure, found, Option.bind_some, deleted]
  simp only [liveCol, List.length_singleton, Nat.one_ne_zero, if_false] at left full ⊢
  rw [full]
  simp only [left]
  exact AList.lookup_insert cols

variable {measureCols : List String}

theorem lookup_foldl_retractMeasure (distinct : measureCols.Nodup) (listed : name ∈ measureCols)
    (cols : HashMap String (ColAgg F)) (row : R) :
    ∃ before : HashMap String (ColAgg F), before.lookup name = cols.lookup name ∧
      (measureCols.foldl (retractMeasure kernel row) cols).lookup name =
        (retractMeasure kernel row before name).lookup name := by
  induction measureCols generalizing cols with
  | nil => cases listed
  | cons first measureCols ih =>
      rw [List.nodup_cons] at distinct
      have other : ∀ (cols : HashMap String (ColAgg F)) next, name ≠ next →
          (retractMeasure kernel row cols next).lookup name = cols.lookup name :=
        fun cols next different => lookup_retractMeasure_of_ne cols row different
      rw [List.foldl_cons]
      rcases List.mem_cons.mp listed with rfl | later
      · refine ⟨cols, rfl, ?_⟩
        apply read_foldl_of_notMem id
          (fun (cols : HashMap String (ColAgg F)) name => cols.lookup name) other
        rintro next member rfl
        exact distinct.1 member
      · obtain ⟨before, before_eq, after_eq⟩ :=
          ih distinct.2 later (retractMeasure kernel row cols first)
        have different : name ≠ first := fun same => distinct.1 (same ▸ later)
        exact ⟨before, before_eq.trans (other cols first different), after_eq⟩

theorem isSome_retractRow (groups : SortedMap String (HashMap String (ColAgg F))) (row : R) :
    ((retractRow kernel column measureCols groups row).lookup key).isSome =
      (groups.lookup key).isSome := by
  unfold retractRow
  split
  · rfl
  · next own _ =>
      split
      · rfl
      · next cols found =>
          by_cases same : key = own
          · rw [same, SortedMap.lookup_insert_self, found]
            rfl
          · rw [SortedMap.lookup_insert_of_ne _ same]

theorem isSome_foldl_retractRow (rows : List R)
    (groups : SortedMap String (HashMap String (ColAgg F))) :
    ((rows.foldl (retractRow kernel column measureCols) groups).lookup key).isSome =
      (groups.lookup key).isSome := by
  induction rows generalizing groups with
  | nil => rfl
  | cons row rows ih => rw [List.foldl_cons, ih, isSome_retractRow]

/-- A row of another group takes nothing off. -/
theorem groupCol_retractRow_of_ne (groups : SortedMap String (HashMap String (ColAgg F)))
    (text : arrowScalarToGroupKeyString (column.value row) ≠ some key) :
    groupCol (retractRow kernel column measureCols groups row) key name =
      groupCol groups key name := by
  unfold retractRow
  split
  · rfl
  · next own own_eq =>
      split
      · rfl
      · have different : key ≠ own := fun same => text (same ▸ own_eq)
        rw [groupCol, SortedMap.lookup_insert_of_ne _ different]
        rfl

variable {groups : SortedMap String (HashMap String (ColAgg F))}

variable (kernel) in
/-- A row of the group is retracted from its columns. -/
theorem groupCol_retractRow_of_eq (distinct : measureCols.Nodup) (listed : name ∈ measureCols)
    (text : arrowScalarToGroupKeyString (column.value row) = some key)
    (present : (groups.lookup key).isSome) :
    ∃ before : HashMap String (ColAgg F), before.lookup name = groupCol groups key name ∧
      groupCol (retractRow kernel column measureCols groups row) key name =
        (retractMeasure kernel row before name).lookup name := by
  obtain ⟨cols, found⟩ := Option.isSome_iff_exists.mp present
  have after : retractRow kernel column measureCols groups row =
      groups.insert key (measureCols.foldl (retractMeasure kernel row) cols) := by
    simp [retractRow, text, found]
  rw [after, groupCol, groupCol, SortedMap.lookup_insert_self, found]
  exact lookup_foldl_retractMeasure distinct listed cols row

/-- Retracting the deleted rows of a group leaves the aggregates of the others. -/
theorem groupCol_foldl_retractRow (integer : kernel.IsInteger name) (distinct : measureCols.Nodup)
    (listed : name ∈ measureCols) {deleted : List R} {physical current live : List Int}
    (perm : current.Perm (groupInts kernel column key name deleted ++ live))
    (fits : Moments.squares current < bound128) (inside : physical = [] → current = [])
    (start : groupCol groups key name = some (liveGroupCol physical current)) :
    groupCol (deleted.foldl (retractRow kernel column measureCols) groups) key name =
      some (liveGroupCol physical live) := by
  induction deleted generalizing groups current with
  | nil =>
      rw [List.foldl_nil, start]
      exact congrArg some (liveGroupCol_perm perm)
  | cons row deleted ih =>
      rw [List.foldl_cons]
      by_cases text : arrowScalarToGroupKeyString (column.value row) = some key
      · have present : (groups.lookup key).isSome := by
          obtain ⟨cols, found, -⟩ := Option.bind_eq_some_iff.mp start
          rw [found]
          rfl
        obtain ⟨before, before_eq, after_eq⟩ :=
          groupCol_retractRow_of_eq kernel distinct listed text present
        rw [groupInts_cons_of_eq text] at perm
        cases value_eq : kernel.intValue name row with
        | none =>
            rw [value_eq] at perm
            apply ih perm fits inside
            rw [after_eq, lookup_retractMeasure_of_null integer before value_eq, before_eq, start]
        | some value =>
            rw [value_eq] at perm
            change current.Perm ([value] ++ (groupInts kernel column key name deleted ++ live)) at perm
            have smaller := squares_le_of_perm perm
            have some_physical : physical ≠ [] := by
              intro none_physical
              rw [inside none_physical] at perm
              exact List.cons_ne_nil _ _ perm.symm.eq_nil
            apply ih (.refl _) (by omega) (fun none_physical => absurd none_physical some_physical)
            rw [liveGroupCol, if_neg some_physical] at start ⊢
            rw [after_eq]
            exact lookup_retractMeasure_of_value integer value_eq perm fits (before_eq.trans start)
      · rw [groupInts_cons_of_ne text] at perm
        apply ih perm fits inside
        rw [groupCol_retractRow_of_ne groups text, start]

theorem lookup_retractMeasure_eq_none {cols : HashMap String (ColAgg F)} (row : R)
    (other : String) (absent : cols.lookup name = none) :
    (retractMeasure kernel row cols other).lookup name = none := by
  by_cases same : name = other
  · subst same
    unfold retractMeasure
    split
    · exact absent
    · split
      · exact absent
      · rw [absent]
        exact absent
  · rw [lookup_retractMeasure_of_ne cols row same, absent]

/-- A column that a group does not have stays missing. -/
theorem groupCol_retractRow_eq_none (row : R) (absent : groupCol groups key name = none) :
    groupCol (retractRow kernel column measureCols groups row) key name = none := by
  unfold retractRow
  split
  · exact absent
  · next own _ =>
      split
      · exact absent
      · next cols found =>
          by_cases same : key = own
          · subst same
            rw [groupCol, found, Option.bind_some] at absent
            rw [groupCol, SortedMap.lookup_insert_self, Option.bind_some]
            have each : ∀ before : HashMap String (ColAgg F), before.lookup name = none →
                (measureCols.foldl (retractMeasure kernel row) before).lookup name = none := by
              induction measureCols with
              | nil => exact fun before absent => absent
              | cons first measureCols ih =>
                  intro before absent
                  exact ih _ (lookup_retractMeasure_eq_none row first absent)
            exact each cols absent
          · rw [groupCol, SortedMap.lookup_insert_of_ne _ same]
            exact absent

theorem groupCol_foldl_retractRow_eq_none (rows : List R) (absent : groupCol groups key name = none) :
    groupCol (rows.foldl (retractRow kernel column measureCols) groups) key name = none := by
  induction rows generalizing groups with
  | nil => exact absent
  | cons row rows ih => exact ih (groupCol_retractRow_eq_none row absent)

end

end AggCache

namespace MetadataAggregate

open AggCache

/-! ## One row group -/

variable {kernel : NumericKernel R F} {column : KeyColumn R} {text name : String}
  {fragment : PhysicalFragment R}

/-- The partial aggregates of a fragment with some rows tell about a column of a group. -/
def Tells (kernel : NumericKernel R F) (column : KeyColumn R) (text name : String) (rows : List R) :
    Prop :=
  groupMembers column text rows ≠ [] ∧ Moments.squares (ints kernel name rows) < bound128

instance (rows : List R) : Decidable (Tells kernel column text name rows) :=
  inferInstanceAs (Decidable (_ ∧ _))

/-- What the groups of a row group say about the rows of its fragment and the live ones. -/
structure DescribesGroups (kernel : NumericKernel R F) (column : KeyColumn R)
    (groups : SortedMap String (HashMap String (ColAgg F))) (rows live : List R) : Prop where
  texts : ∀ row ∈ rows, ∃ text, arrowScalarToGroupKeyString (column.value row) = some text
  keys : ∀ key, (groups.lookup key).isSome ↔ groupMembers column key rows ≠ []
  told : ∀ key name, kernel.IsInteger name → Tells kernel column key name rows →
    groupCol groups key name = some (liveGroupCol (groupInts kernel column key name rows)
      (groupInts kernel column key name live))
  untold : ∀ key name, kernel.IsInteger name → ¬ Tells kernel column key name rows →
    groupCol groups key name = none

theorem squares_groupInts_le (rows : List R) :
    Moments.squares (groupInts kernel column text name rows) ≤
      Moments.squares (ints kernel name rows) := by
  have split := List.filter_append_perm (fun row : R =>
    decide (arrowScalarToGroupKeyString (column.value row) = some text)) rows
  exact squares_le_of_perm (perm_ints_append (split.symm.trans List.perm_append_comm))

section Planning

variable [Double F] {storage : TableStorage R} {manifest : Manifest} {schemaId index : Nat}
  {entry : RowGroupEntry} {grouping : Grouping R} {partials : GroupedPartials F}

theorem lookup_computeGrouped {cols : HashMap String (ColAgg F)} {rows : List R} {keyCol : String}
    (column_eq : grouping.columns.lookup keyCol = some column)
    (found : computeGrouped kernel grouping.columns keyCol cols rows = some partials) :
    partials.keyCol = keyCol ∧
      (∀ row ∈ rows, ∃ text, arrowScalarToGroupKeyString (column.value row) = some text) ∧
      ∀ key, partials.groups.lookup key =
        if groupMembers column key rows = [] then none
        else some (groupCols kernel cols (groupMembers column key rows)) := by
  rw [computeGrouped, column_eq, Option.bind_eq_bind, Option.bind_some] at found
  obtain ⟨groups, groups_eq, found⟩ := Option.bind_eq_some_iff.mp found
  split at found
  · cases found
  · obtain rfl := Option.some.inj found
    refine ⟨rfl, exists_text_of_groupRows groups_eq, fun key => ?_⟩
    rw [SortedMap.lookup_mapValues, lookup_groupRows groups_eq]
    split <;> rfl

/-- A group has a column whose sums over the whole fragment fit. -/
theorem lookup_groupCols (integer : kernel.IsInteger name) (fragmentId : Nat)
    (contentHash : String) (rows group : List R)
    (smaller : Moments.squares (ints kernel name group) ≤
      Moments.squares (ints kernel name rows)) :
    (groupCols kernel (computeAggState kernel fragmentId contentHash rows).cols group).lookup name =
      if Moments.squares (ints kernel name rows) < bound128 then
        some (liveGroupCol (ints kernel name group) (ints kernel name group))
      else none := by
  have whole := lookup_computeAggState integer fragmentId contentHash rows
  rw [computeSignedIntCol_eq_ite] at whole
  obtain ⟨kind, kind_eq, not_float⟩ := integer
  rw [groupCols, HashMap.lookup_filterMap, kind_eq, Option.bind_some, whole,
    array_of_ne_float not_float, computeCol, computeSignedIntCol_eq_ite]
  rw [ints, ints] at smaller
  by_cases fits : Moments.squares (rows.map (kernel.intValue name)).reduceOption < bound128
  · rw [if_pos fits, Option.isSome_some, if_pos rfl, if_pos (by omega), ints, if_pos fits]
    rfl
  · rw [if_neg fits, if_neg (by rintro ⟨⟩), ints, if_neg fits]

/-- The groups in the sidecar of a fragment are of all its rows. -/
theorem describesGroups_computeGrouped {fragmentId : Nat} {contentHash keyCol : String}
    {rows : List R} (column_eq : grouping.columns.lookup keyCol = some column)
    (found : computeGrouped kernel grouping.columns keyCol
      (computeAggState kernel fragmentId contentHash rows).cols rows = some partials) :
    partials.keyCol = keyCol ∧ DescribesGroups kernel column partials.groups rows rows := by
  obtain ⟨keyCol_eq, texts, groups_eq⟩ := lookup_computeGrouped column_eq found
  refine ⟨keyCol_eq, texts, ?_, ?_, ?_⟩
  · intro key
    rw [groups_eq]
    split
    · next nobody => simp [nobody]
    · next somebody => simp [somebody]
  · intro key name integer tells
    rw [groupCol, groups_eq, if_neg tells.1, Option.bind_some,
      lookup_groupCols integer _ _ _ _ (squares_groupInts_le rows), if_pos tells.2]
    rfl
  · intro key name integer silent
    rw [groupCol, groups_eq]
    split
    · rfl
    · next somebody =>
        rw [Option.bind_some, lookup_groupCols integer _ _ _ _ (squares_groupInts_le rows)]
        exact if_neg fun fits => silent ⟨somebody, fits⟩

theorem describesGroups_loadGrouped {fragment : PhysicalFragment R}
    (holds : HoldsFragment kernel storage manifest schemaId index entry fragment)
    (column_eq : grouping.columns.lookup partials.keyCol = some column)
    (found : Reader.loadGrouped kernel grouping storage entry = some partials) :
    DescribesGroups kernel column partials.groups fragment.rows fragment.rows := by
  obtain ⟨path, named, contents⟩ := Option.bind_eq_some_iff.mp found
  split at contents
  · next fragmentId contentHash rows stored =>
      obtain ⟨keyCol, -, computed⟩ := Option.bind_eq_some_iff.mp contents
      obtain rfl := holds.partials path named _ _ _ stored
      obtain ⟨own, own_eq, -⟩ := Option.bind_eq_some_iff.mp computed
      obtain ⟨keyCol_eq, describes⟩ := describesGroups_computeGrouped own_eq computed
      rw [keyCol_eq] at column_eq
      obtain rfl := Option.some.inj (own_eq.symm.trans column_eq)
      exact describes
  · cases contents

/-- Retracting the deleted rows leaves the groups of the live ones. -/
theorem describesGroups_retractGrouped {fragment : PhysicalFragment R}
    {groups : SortedMap String (HashMap String (ColAgg F))}
    (column_eq : grouping.columns.lookup partials.keyCol = some column)
    (data : storage.files.lookup entry.data = some (.data fragment.rows))
    (describes : DescribesGroups kernel column partials.groups fragment.rows fragment.rows)
    (found : retractGrouped kernel grouping.columns storage entry partials fragment.deleted
      (partials.groups.entries.flatMap fun group => group.2.keys).dedup = some groups) :
    DescribesGroups kernel column groups fragment.rows fragment.live := by
  unfold retractGrouped at found
  split at found
  · next clean =>
      obtain rfl := Option.some.inj found
      rw [live_of_clean clean]
      exact describes
  · rw [data, column_eq] at found
    obtain rfl := Option.some.inj found
    refine ⟨describes.texts, ?_, ?_, ?_⟩
    · intro key
      rw [isSome_foldl_retractRow]
      exact describes.keys key
    · intro key name integer tells
      have full := describes.told key name integer tells
      obtain ⟨cols, cols_eq, col_eq⟩ := Option.bind_eq_some_iff.mp full
      have listed : name ∈ (partials.groups.entries.flatMap fun group => group.2.keys).dedup := by
        rw [List.mem_dedup, List.mem_flatMap]
        refine ⟨(key, cols), SortedMap.lookup_eq_some.mp cols_eq, ?_⟩
        rw [← AList.mem_keys, ← AList.lookup_isSome, col_eq]
        rfl
      have perm : (groupInts kernel column key name fragment.rows).Perm
          (groupInts kernel column key name (deletedRows fragment.deleted fragment.rows) ++
            groupInts kernel column key name fragment.live) :=
        perm_ints_append (perm_groupMembers column key fragment.deleted fragment.rows)
      have smaller : Moments.squares (groupInts kernel column key name fragment.rows) ≤
          Moments.squares (ints kernel name fragment.rows) := squares_groupInts_le fragment.rows
      exact groupCol_foldl_retractRow integer (List.nodup_dedup _) listed perm
        (lt_of_le_of_lt smaller tells.2) id full
    · intro key name integer silent
      exact groupCol_foldl_retractRow_eq_none _ (describes.untold key name integer silent)

theorem describesGroups_liveGrouped {fragment : PhysicalFragment R}
    (holds : HoldsFragment kernel storage manifest schemaId index entry fragment)
    (column_eq : grouping.columns.lookup partials.keyCol = some column)
    (found : Reader.liveGrouped kernel grouping storage entry = some partials) :
    DescribesGroups kernel column partials.groups fragment.rows fragment.live := by
  unfold Reader.liveGrouped at found
  split at found
  · obtain ⟨path, named, contents⟩ := Option.bind_eq_some_iff.mp found
    split at contents
    · next deletions stored =>
        have known := deletionsOf_eq_some.mpr (.inr ⟨path, named, stored⟩)
        obtain rfl : deletions = fragment.deleted :=
          Option.some.inj (known.symm.trans holds.deletions)
        obtain ⟨keyCol, -, resolved⟩ := Option.bind_eq_some_iff.mp contents
        obtain ⟨full, full_eq, resolved⟩ := Option.bind_eq_some_iff.mp resolved
        split at resolved
        · cases resolved
        · obtain ⟨groups, retracted, same⟩ := Option.bind_eq_some_iff.mp resolved
          obtain rfl := Option.some.inj same
          have column_eq : grouping.columns.lookup full.keyCol = some column := column_eq
          exact describesGroups_retractGrouped column_eq holds.data
            (describesGroups_loadGrouped holds column_eq full_eq) retracted
    · cases contents
  · next clean =>
      have none_deleted : fragment.deleted = ∅ := by
        have count := holds.deletedCount
        rw [DeletionVector.cardinality] at count
        exact Finset.card_eq_zero.mp (by omega)
      rw [live_of_clean none_deleted]
      exact describesGroups_loadGrouped holds column_eq found

omit [Double F] in
theorem usableGrouped_eq_some {keyName : String} {group : GroupedRowGroup F}
    (usable : usableGrouped keyName group = some partials) :
    group.grouped = some partials ∧ partials.keyCol = keyName := by
  unfold usableGrouped at usable
  split at usable
  · cases usable
  · obtain ⟨state, -, rest⟩ := Option.bind_eq_some_iff.mp usable
    split at rest
    · cases rest
    · obtain ⟨grouped, grouped_eq, rest⟩ := Option.bind_eq_some_iff.mp rest
      split at rest
      · cases rest
      · next same =>
          obtain rfl := Option.some.inj rest
          exact ⟨grouped_eq, not_not.mp same⟩

/-- The groups of all row groups that can be used describe the fragments. -/
theorem HoldsFragments.describesGroups {fragments : List (PhysicalFragment R)}
    (holds : HoldsFragments kernel storage manifest schemaId fragments) {keyName : String}
    (column_eq : grouping.columns.lookup keyName = some column) {parts : List (GroupedPartials F)}
    (found : (Reader.scanGrouped kernel grouping storage manifest schemaId).mapM
      (usableGrouped keyName) = some parts) :
    List.Forall₂ (fun (part : GroupedPartials F) fragment =>
      DescribesGroups kernel column part.groups fragment.rows fragment.live) parts fragments := by
  obtain ⟨length_eq, each⟩ := holds
  have usable := List.forall₂_of_mapM_eq_some found
  rw [List.forall₂_iff_get, Reader.scanGrouped] at usable
  have parts_length := usable.1
  rw [List.length_mapIdx] at parts_length
  rw [List.forall₂_iff_get]
  refine ⟨by omega, fun index left right => ?_⟩
  have own := usable.2 index (by rw [List.length_mapIdx]; omega) left
  simp only [List.get_eq_getElem, List.getElem_mapIdx] at own
  obtain ⟨grouped_eq, rfl⟩ := usableGrouped_eq_some own
  exact describesGroups_liveGrouped
    (each index _ _ (List.getElem?_eq_getElem (by omega)) (List.getElem?_eq_getElem right))
    column_eq grouped_eq

end Planning

/-! ## What an answer is from -/

/-- The rows that have a key. -/
def rowsOf (column : KeyColumn R) (key : KeyValue) (rows : List R) : List R :=
  rows.filter fun row => column.value row = key

/-- The values of a column of all rows of fragments that have a key. -/
def physicalValues (kernel : NumericKernel R F) (column : KeyColumn R) (key : KeyValue)
    (name : String) (fragments : List (PhysicalFragment R)) : List Int :=
  fragments.flatMap fun fragment => ints kernel name (rowsOf column key fragment.rows)

/-- The values of a column of the live rows of fragments that have a key. -/
def groupValues (kernel : NumericKernel R F) (column : KeyColumn R) (key : KeyValue)
    (name : String) (fragments : List (PhysicalFragment R)) : List Int :=
  fragments.flatMap fun fragment => ints kernel name (rowsOf column key fragment.live)

/-- Fragments that an answer about a column of a group leaves out, and those that it is from. -/
structure Sources (R : Type) where
  lost : List (PhysicalFragment R)
  kept : Option (List (PhysicalFragment R))

/-- Take in one more fragment.  A fragment without rows of the group, or whose values are too large,
is left out, and when the values of all that were taken in are too large together, all of these
are. -/
def Sources.takeIn (kernel : NumericKernel R F) (column : KeyColumn R) (key : KeyValue)
    (name : String) (sources : Sources R) (fragment : PhysicalFragment R) : Sources R :=
  if rowsOf column key fragment.rows ≠ [] ∧
      Moments.squares (ints kernel name fragment.rows) < bound128 then
    match sources.kept with
    | none => { sources with kept := some [fragment] }
    | some kept =>
        if Moments.squares (groupValues kernel column key name (kept ++ [fragment])) < bound128 then
          { sources with kept := some (kept ++ [fragment]) }
        else { lost := sources.lost ++ (kept ++ [fragment]), kept := none }
  else { sources with lost := sources.lost ++ [fragment] }

/-- The fragments that an answer about a column of a group is from. -/
def sourcesOf (kernel : NumericKernel R F) (column : KeyColumn R) (key : KeyValue) (name : String)
    (fragments : List (PhysicalFragment R)) : Sources R :=
  fragments.foldl (Sources.takeIn kernel column key name) { lost := [], kept := none }

section Sources

variable {key : KeyValue}

theorem groupMembers_eq_rowsOf (text_eq : arrowScalarToGroupKeyString key = some text)
    (rows : List R) : groupMembers column text rows = rowsOf column key rows := by
  apply List.filter_congr
  intro row _
  rw [decide_eq_decide]
  constructor
  · intro row_text
    exact arrowScalarToGroupKeyString_injective row_text text_eq
  · rintro rfl
    exact text_eq

theorem groupInts_eq_rowsOf (text_eq : arrowScalarToGroupKeyString key = some text)
    (rows : List R) :
    groupInts kernel column text name rows = ints kernel name (rowsOf column key rows) := by
  rw [groupInts, groupMembers_eq_rowsOf text_eq]

section

variable (kernel column name key)

/-- No fragment is taken in twice or forgotten. -/
theorem perm_takeIn (sources : Sources R) (fragment : PhysicalFragment R) :
    let next := sources.takeIn kernel column key name fragment
    (sources.lost ++ sources.kept.getD [] ++ [fragment]).Perm (next.lost ++ next.kept.getD []) := by
  obtain ⟨lost, kept⟩ := sources
  rw [Sources.takeIn]
  split
  · cases kept with
    | none => simp
    | some kept =>
        simp only
        split
        · simp
        · simp
  · simp only [List.append_assoc]
    exact List.perm_append_comm.append_left lost

theorem perm_foldl_takeIn (fragments : List (PhysicalFragment R)) (sources : Sources R) :
    let final := fragments.foldl (Sources.takeIn kernel column key name) sources
    (sources.lost ++ sources.kept.getD [] ++ fragments).Perm
      (final.lost ++ final.kept.getD []) := by
  induction fragments generalizing sources with
  | nil => simp
  | cons fragment fragments ih =>
      have first := perm_takeIn kernel column name key sources fragment
      have rest := ih (sources.takeIn kernel column key name fragment)
      have both := (first.append_right fragments).trans rest
      rwa [List.append_assoc] at both

/-- The live values of a group are those that an answer is from and those that it leaves out. -/
theorem perm_groupValues (fragments : List (PhysicalFragment R)) :
    (groupValues kernel column key name fragments).Perm
      (groupValues kernel column key name (sourcesOf kernel column key name fragments).lost ++
        groupValues kernel column key name
          ((sourcesOf kernel column key name fragments).kept.getD [])) := by
  have perm : fragments.Perm ((sourcesOf kernel column key name fragments).lost ++
      (sourcesOf kernel column key name fragments).kept.getD []) :=
    perm_foldl_takeIn kernel column name key fragments { lost := [], kept := none }
  rw [groupValues, groupValues, groupValues, ← List.flatMap_append]
  exact perm.flatMap_right _

end

theorem squares_live_le (fragment : PhysicalFragment R) :
    Moments.squares (ints kernel name (rowsOf column key fragment.live)) ≤
      Moments.squares (ints kernel name fragment.rows) := by
  have live_split := List.filter_append_perm (fun row : R => decide (column.value row = key))
    fragment.live
  exact (squares_le_of_perm (perm_ints_append (live_split.symm.trans List.perm_append_comm))).trans
    (squares_le_of_perm (perm_ints kernel name fragment.deleted fragment.rows))

theorem live_eq_nil_of_physical (fragment : PhysicalFragment R)
    (nulls : ints kernel name (rowsOf column key fragment.rows) = []) :
    ints kernel name (rowsOf column key fragment.live) = [] := by
  have members := (perm_deletedRows_liveRows fragment.deleted fragment.rows).filter
    fun row => decide (column.value row = key)
  rw [List.filter_append] at members
  have perm : (ints kernel name (rowsOf column key fragment.rows)).Perm
      (ints kernel name (rowsOf column key (deletedRows fragment.deleted fragment.rows)) ++
        ints kernel name (rowsOf column key fragment.live)) := perm_ints_append members
  rw [nulls] at perm
  exact (List.append_eq_nil_iff.mp perm.symm.eq_nil).2

theorem groupValues_eq_nil {fragments : List (PhysicalFragment R)}
    (nulls : physicalValues kernel column key name fragments = []) :
    groupValues kernel column key name fragments = [] := by
  rw [physicalValues, List.flatMap_eq_nil_iff] at nulls
  rw [groupValues, List.flatMap_eq_nil_iff]
  intro fragment member
  exact live_eq_nil_of_physical fragment (nulls fragment member)

/-- The fragments that were taken in fit together. -/
def Sources.Fit (kernel : NumericKernel R F) (column : KeyColumn R) (key : KeyValue)
    (name : String) (sources : Sources R) : Prop :=
  ∀ kept, sources.kept = some kept →
    Moments.squares (groupValues kernel column key name kept) < bound128

theorem Sources.Fit.takeIn {sources : Sources R} (fit : sources.Fit kernel column key name)
    (fragment : PhysicalFragment R) :
    (sources.takeIn kernel column key name fragment).Fit kernel column key name := by
  obtain ⟨lost, kept⟩ := sources
  rw [Sources.takeIn]
  split
  · next counted =>
      cases kept with
      | none =>
          rintro kept ⟨⟩
          rw [groupValues, List.flatMap_singleton]
          exact lt_of_le_of_lt (squares_live_le fragment) counted.2
      | some kept =>
          simp only
          split
          · next together =>
              rintro both ⟨⟩
              exact together
          · exact nofun
  · exact fit

/-- The aggregates of the fragments that were taken in. -/
def Sources.agg (kernel : NumericKernel R F) (column : KeyColumn R) (key : KeyValue)
    (name : String) (sources : Sources R) : Option (ColAgg F) :=
  sources.kept.map fun kept => liveGroupCol (physicalValues kernel column key name kept)
    (groupValues kernel column key name kept)

/-- Taking in a fragment merges its aggregates. -/
theorem agg_takeIn [Double F] {groups : SortedMap String (HashMap String (ColAgg F))}
    {fragment : PhysicalFragment R}
    (describes : DescribesGroups kernel column groups fragment.rows fragment.live)
    (integer : kernel.IsInteger name) (text_eq : arrowScalarToGroupKeyString key = some text)
    {sources : Sources R} (fit : sources.Fit kernel column key name) :
    (sources.takeIn kernel column key name fragment).agg kernel column key name =
      mergeOptions (· + ·) (sources.agg kernel column key name) (groupCol groups text name) := by
  obtain ⟨lost, kept⟩ := sources
  rw [Sources.takeIn]
  have tells_iff : Tells kernel column text name fragment.rows ↔
      rowsOf column key fragment.rows ≠ [] ∧
        Moments.squares (ints kernel name fragment.rows) < bound128 := by
    rw [Tells, groupMembers_eq_rowsOf text_eq]
  split
  · next counted =>
      rw [describes.told text name integer (tells_iff.mpr counted), groupInts_eq_rowsOf text_eq,
        groupInts_eq_rowsOf text_eq]
      have own_fits : Moments.squares (ints kernel name (rowsOf column key fragment.live)) <
          bound128 := lt_of_le_of_lt (squares_live_le fragment) counted.2
      cases kept with
      | none => simp [Sources.agg, mergeOptions, physicalValues, groupValues]
      | some kept =>
          have together := mergeTwoColAggs_liveGroupCol (F := F) groupValues_eq_nil
            (live_eq_nil_of_physical fragment) (fit kept rfl) own_fits
          have one_more : groupValues kernel column key name (kept ++ [fragment]) =
              groupValues kernel column key name kept ++
                ints kernel name (rowsOf column key fragment.live) := by
            simp [groupValues]
          have one_more' : physicalValues kernel column key name (kept ++ [fragment]) =
              physicalValues kernel column key name kept ++
                ints kernel name (rowsOf column key fragment.rows) := by
            simp [physicalValues]
          simp only [Sources.agg, Option.map_some, mergeOptions]
          rw [together, one_more]
          split
          · rw [Option.map_some, one_more, one_more']
          · rfl
  · next uncounted =>
      rw [describes.untold text name integer fun tells => uncounted (tells_iff.mp tells),
        mergeOptions_none]
      rfl

/-- The merged aggregates of a column of a group are of the fragments that were taken in. -/
theorem groupCol_mergeGrouped_eq [Double F] {parts : List (GroupedPartials F)}
    {fragments : List (PhysicalFragment R)}
    (describes : List.Forall₂ (fun (part : GroupedPartials F) fragment =>
      DescribesGroups kernel column part.groups fragment.rows fragment.live) parts fragments)
    (integer : kernel.IsInteger name) (text_eq : arrowScalarToGroupKeyString key = some text) :
    groupCol (mergeGrouped (· + ·) parts) text name =
      (sourcesOf kernel column key name fragments).agg kernel column key name := by
  suffices from_any : ∀ sources : Sources R, sources.Fit kernel column key name →
      (parts.map fun part => groupCol part.groups text name).foldl (mergeOptions (· + ·))
        (sources.agg kernel column key name) =
      (fragments.foldl (Sources.takeIn kernel column key name) sources).agg kernel column key
        name by
    rw [groupCol_mergeGrouped]
    exact from_any { lost := [], kept := none } nofun
  induction describes with
  | nil => exact fun sources _ => rfl
  | cons describe _ ih =>
      intro sources fit
      rw [List.map_cons, List.foldl_cons, List.foldl_cons,
        ← agg_takeIn describe integer text_eq fit]
      exact ih _ (fit.takeIn _)

end Sources

end MetadataAggregate

end IcefallDB
