import IcefallDB.AggCache
import IcefallDB.Lib.Groups
import IcefallDB.Lib.JsonText
import Mathlib.Data.String.Basic

/-!
# Partial aggregates of groups

When a table declares a column that its rows are grouped by, the aggregate sidecar of a fragment also
holds the partial aggregates of each group.  Groups are kept by the JSON text of their key.
-/

namespace IcefallDB

/-! ## Keys -/

/-- Types of columns that rows are grouped by. -/
inductive KeyType
  | int8 | int16 | int32 | int64
  | uint8 | uint16 | uint32 | uint64
  | utf8 | largeUtf8
  | boolean
  /-- A type without group keys. -/
  | other
  deriving DecidableEq

/-- The lowest integer of a type, and the first above all of them. -/
def KeyType.range : KeyType → Option (Int × Int)
  | .int8 => some (-2 ^ 7, 2 ^ 7)
  | .int16 => some (-2 ^ 15, 2 ^ 15)
  | .int32 => some (-2 ^ 31, 2 ^ 31)
  | .int64 => some (-2 ^ 63, 2 ^ 63)
  | .uint8 => some (0, 2 ^ 8)
  | .uint16 => some (0, 2 ^ 16)
  | .uint32 => some (0, 2 ^ 32)
  | .uint64 => some (0, 2 ^ 64)
  | .utf8 | .largeUtf8 | .boolean | .other => none

/-- The type is of texts. -/
def KeyType.IsText (type : KeyType) : Prop :=
  type = .utf8 ∨ type = .largeUtf8

instance (type : KeyType) : Decidable type.IsText :=
  inferInstanceAs (Decidable (_ ∨ _))

/-- A cell of a column that rows are grouped by. -/
inductive KeyValue
  | null
  | int (value : Int)
  | text (value : String)
  | bool (value : Bool)
  | other
  deriving DecidableEq

/-- The cell can be in a column of the type. -/
def KeyValue.Fits (type : KeyType) : KeyValue → Prop
  | .null => True
  | .int value => ∃ low high, type.range = some (low, high) ∧ low ≤ value ∧ value < high
  | .text _ => type.IsText
  | .bool _ => type = .boolean
  | .other => type = .other

/-- A column that rows are grouped by. -/
structure KeyColumn (R : Type) where
  type : KeyType
  value : R → KeyValue
  fits : ∀ row, (value row).Fits type

namespace AggCache

/-- A key as JSON, unless its type has no group keys. -/
def keyToJson : KeyValue → Option Json
  | .null => some .null
  | .int value => some (.num value)
  | .text value => some (.str value)
  | .bool value => some (.bool value)
  | .other => none

/-- The text that a key is kept by. -/
def arrowScalarToGroupKeyString (value : KeyValue) : Option String :=
  (keyToJson value).map fun json => String.ofList json.render

/-- A JSON value as a value of a column. -/
def jsonToScalarValue (type : KeyType) : Json → Option KeyValue
  | .num value =>
      type.range.bind fun range =>
        if range.1 ≤ value ∧ value < range.2 then some (.int value) else none
  | .str value => if type.IsText then some (.text value) else none
  | .bool value => if type = .boolean then some (.bool value) else none
  | .null | .float _ | .arr _ | .obj _ => none

/-- The key that a text stands for. -/
def decodeGroupKey (type : KeyType) (text : String) : Option KeyValue :=
  (Json.parse text.toList).bind fun
    | .null => some .null
    | json => jsonToScalarValue type json

theorem keyToJson_injective {key key' : KeyValue} {json : Json}
    (key_eq : keyToJson key = some json) (key'_eq : keyToJson key' = some json) : key = key' := by
  cases key <;> cases key_eq <;> cases key' <;> cases key'_eq <;> rfl

theorem arrowScalarToGroupKeyString_injective {key key' : KeyValue} {text : String}
    (key_eq : arrowScalarToGroupKeyString key = some text)
    (key'_eq : arrowScalarToGroupKeyString key' = some text) : key = key' := by
  obtain ⟨json, json_eq, rfl⟩ := Option.map_eq_some_iff.mp key_eq
  obtain ⟨json', json'_eq, same⟩ := Option.map_eq_some_iff.mp key'_eq
  have parsed := Json.parse_render json
  rw [← String.ofList_injective same, Json.parse_render] at parsed
  obtain rfl := Option.some.inj parsed
  exact keyToJson_injective json_eq json'_eq

/-- The text of a key stands for it. -/
theorem decodeGroupKey_of_fits {type : KeyType} {key : KeyValue} {text : String}
    (fits : key.Fits type) (text_eq : arrowScalarToGroupKeyString key = some text) :
    decodeGroupKey type text = some key := by
  obtain ⟨json, json_eq, rfl⟩ := Option.map_eq_some_iff.mp text_eq
  rw [decodeGroupKey, String.toList_ofList, Json.parse_render]
  cases key with
  | null =>
      cases json_eq
      rfl
  | int value =>
      cases json_eq
      obtain ⟨low, high, range_eq, inside⟩ := fits
      simp [jsonToScalarValue, range_eq, inside]
  | text value =>
      cases json_eq
      exact if_pos fits
  | bool value =>
      cases json_eq
      exact if_pos fits
  | other => cases json_eq

end AggCache

/-! ## Partials of a fragment -/

/-- Partial aggregates of the groups of a fragment. -/
structure GroupedPartials (F : Type) where
  keyCol : String
  groups : SortedMap String (HashMap String (ColAgg F))

namespace AggCache

variable {R F : Type}

/-- Most groups that are kept for a fragment. -/
def maxDeclaredGroups : Nat := 4096

/-- The rows of each group, unless a key has no text. -/
def groupRows (column : KeyColumn R) (rows : List R) : Option (SortedMap String (List R)) :=
  rows.foldlM (fun groups row =>
    (arrowScalarToGroupKeyString (column.value row)).map fun key =>
      groups.insert key ((groups.lookup key).getD [] ++ [row])) ∅

/-- Add two aggregates, if they are of one kind and the sum does not overflow. -/
def mergeScalar [Double F] : AggScalar F → AggScalar F → Option (AggScalar F)
  | .int left, .int right => (Moments.checked bound128 (left + right)).map .int
  | .float left, .float right => some (.float (left + right))
  | .null, other | other, .null => some other
  | _, _ => none

/-- Add the aggregates of two parts of a column.  Counts are added by the machine. -/
def mergeTwoColAggs [Double F] (plus : Nat → Nat → Nat) (left right : ColAgg F) :
    Option (ColAgg F) := do
  let sum ← mergeScalar left.sum right.sum
  let sumsq ← mergeScalar left.sumsq right.sumsq
  some { countNonNull := plus left.countNonNull right.countNonNull, sum, sumsq }

section

variable [Double F]

/-- Partial aggregates of the columns of a group that have some for the whole fragment. -/
def groupCols (kernel : NumericKernel R F) (cols : HashMap String (ColAgg F)) (group : List R) :
    HashMap String (ColAgg F) :=
  HashMap.filterMap (fun name kind =>
    if (cols.lookup name).isSome then computeCol (kernel.array name kind group) else none)
    kernel.columns

/-- Partial aggregates of the groups of a batch, unless there are too many. -/
def computeGrouped (kernel : NumericKernel R F) (columns : HashMap String (KeyColumn R))
    (keyCol : String) (cols : HashMap String (ColAgg F)) (rows : List R) :
    Option (GroupedPartials F) := do
  let column ← columns.lookup keyCol
  let groups ← groupRows column rows
  if groups.entries.length > maxDeclaredGroups then none
  else some { keyCol, groups := groups.mapValues (groupCols kernel cols) }

/-! ## Merging fragments -/

section

variable (plus : Nat → Nat → Nat)

/-- Merge one column of a group.  A column for which that fails is dropped. -/
def mergeCol (cols : HashMap String (ColAgg F)) (entry : Sigma fun _ : String => ColAgg F) :
    HashMap String (ColAgg F) :=
  match cols.lookup entry.1 with
  | none => cols.insert entry.1 entry.2
  | some existing =>
      match mergeTwoColAggs plus existing entry.2 with
      | some agg => cols.insert entry.1 agg
      | none => cols.erase entry.1

/-- Merge the columns of a group. -/
def mergeCols (cols incoming : HashMap String (ColAgg F)) : HashMap String (ColAgg F) :=
  incoming.entries.foldl (mergeCol plus) cols

/-- Merge one group. -/
def mergeGroup (merged : SortedMap String (HashMap String (ColAgg F)))
    (group : String × HashMap String (ColAgg F)) : SortedMap String (HashMap String (ColAgg F)) :=
  merged.insert group.1 (mergeCols plus ((merged.lookup group.1).getD ∅) group.2)

/-- Merge the groups of fragments. -/
def mergeGrouped (parts : List (GroupedPartials F)) :
    SortedMap String (HashMap String (ColAgg F)) :=
  parts.foldl (fun merged part => part.groups.entries.foldl (mergeGroup plus) merged) ∅

end

/-! ## Retracting deleted rows -/

/-- Subtract a deleted row from the aggregates of a column, and drop a column for which that
fails. -/
def retractMeasure (kernel : NumericKernel R F) (row : R) (cols : HashMap String (ColAgg F))
    (name : String) : HashMap String (ColAgg F) :=
  match (kernel.columns.lookup name).bind fun kind => computeCol (kernel.array name kind [row]) with
  | none => cols
  | some deleted =>
      if deleted.countNonNull = 0 then cols
      else
        match cols.lookup name with
        | none => cols
        | some full =>
            match retractCol full deleted with
            | some left => cols.insert name left
            | none => cols.erase name

/-- Subtract a deleted row from its group. -/
def retractRow (kernel : NumericKernel R F) (column : KeyColumn R) (measureCols : List String)
    (groups : SortedMap String (HashMap String (ColAgg F))) (row : R) :
    SortedMap String (HashMap String (ColAgg F)) :=
  match arrowScalarToGroupKeyString (column.value row) with
  | none => groups
  | some key =>
      match groups.lookup key with
      | none => groups
      | some cols => groups.insert key (measureCols.foldl (retractMeasure kernel row) cols)

/-- Subtract the deleted rows of a fragment from their groups. -/
def retractGrouped (kernel : NumericKernel R F) (columns : HashMap String (KeyColumn R))
    (storage : TableStorage R) (entry : RowGroupEntry) (partials : GroupedPartials F)
    (deletions : DeletionVector) (measureCols : List String) :
    Option (SortedMap String (HashMap String (ColAgg F))) :=
  if deletions = ∅ then some partials.groups
  else
    match storage.files.lookup entry.data with
    | some (.data rows) =>
        (columns.lookup partials.keyCol).map fun column =>
          (deletedRows deletions rows).foldl (retractRow kernel column measureCols) partials.groups
    | _ => none

end

/-! ## What the groups hold -/

/-- The rows whose key has a text. -/
def groupMembers (column : KeyColumn R) (key : String) (rows : List R) : List R :=
  rows.filter fun row => arrowScalarToGroupKeyString (column.value row) = some key

variable {column : KeyColumn R} {rows : List R}

theorem mem_groupMembers {key : String} {row : R} :
    row ∈ groupMembers column key rows ↔
      row ∈ rows ∧ arrowScalarToGroupKeyString (column.value row) = some key := by
  simp [groupMembers]

theorem perm_groupMembers (column : KeyColumn R) (key : String) (deletions : DeletionVector)
    (rows : List R) : (groupMembers column key rows).Perm
      (groupMembers column key (deletedRows deletions rows) ++
        groupMembers column key (liveRows deletions rows)) := by
  rw [groupMembers, groupMembers, groupMembers, ← List.filter_append]
  exact (perm_deletedRows_liveRows deletions rows).filter _

variable {groups : SortedMap String (List R)}

/-- The rows that were in a group stay before those that are added to it. -/
theorem lookup_foldlM_groupRows {start : SortedMap String (List R)}
    (found : rows.foldlM (fun groups row =>
      (arrowScalarToGroupKeyString (column.value row)).map fun key =>
        groups.insert key ((groups.lookup key).getD [] ++ [row])) start = some groups)
    (key : String) : groups.lookup key =
      if groupMembers column key rows = [] then start.lookup key
      else some ((start.lookup key).getD [] ++ groupMembers column key rows) := by
  induction rows generalizing start with
  | nil =>
      obtain rfl := Option.some.inj found
      rfl
  | cons row rows ih =>
      rw [List.foldlM_cons] at found
      obtain ⟨next, taken, rest⟩ := Option.bind_eq_some_iff.mp found
      obtain ⟨own, own_eq, rfl⟩ := Option.map_eq_some_iff.mp taken
      rw [ih rest]
      by_cases same : own = key
      · subst same
        have members : groupMembers column own (row :: rows) =
            row :: groupMembers column own rows := List.filter_cons_of_pos (by simpa using own_eq)
        rw [members, if_neg (List.cons_ne_nil _ _), SortedMap.lookup_insert_self, Option.getD_some,
          List.append_assoc, List.singleton_append]
        split
        · next none_later => rw [none_later]
        · rfl
      · have members : groupMembers column key (row :: rows) = groupMembers column key rows := by
          apply List.filter_cons_of_neg
          simpa [own_eq] using same
        rw [members, SortedMap.lookup_insert_of_ne _ (Ne.symm same)]

theorem lookup_groupRows (found : groupRows column rows = some groups) (key : String) :
    groups.lookup key =
      if groupMembers column key rows = [] then none else some (groupMembers column key rows) := by
  rw [lookup_foldlM_groupRows found]
  rfl

/-- All keys of grouped rows have texts. -/
theorem exists_text_of_groupRows {start : SortedMap String (List R)}
    (found : rows.foldlM (fun groups row =>
      (arrowScalarToGroupKeyString (column.value row)).map fun key =>
        groups.insert key ((groups.lookup key).getD [] ++ [row])) start = some groups) :
    ∀ row ∈ rows, ∃ text, arrowScalarToGroupKeyString (column.value row) = some text := by
  induction rows generalizing start with
  | nil => simp
  | cons row rows ih =>
      rw [List.foldlM_cons] at found
      obtain ⟨next, taken, rest⟩ := Option.bind_eq_some_iff.mp found
      obtain ⟨own, own_eq, -⟩ := Option.map_eq_some_iff.mp taken
      rw [List.forall_mem_cons]
      exact ⟨⟨own, own_eq⟩, ih rest⟩

/-- The aggregates of a column of a group. -/
def groupCol (groups : SortedMap String (HashMap String (ColAgg F))) (key name : String) :
    Option (ColAgg F) :=
  (groups.lookup key).bind fun cols => cols.lookup name

section

variable [Double F]

/-- Merge the aggregates of two parts of a column that may be missing. -/
def mergeOptions (plus : Nat → Nat → Nat) : Option (ColAgg F) → Option (ColAgg F) → Option (ColAgg F)
  | none, incoming => incoming
  | existing, none => existing
  | some existing, some incoming => mergeTwoColAggs plus existing incoming

variable {plus : Nat → Nat → Nat}

theorem mergeOptions_none (existing : Option (ColAgg F)) :
    mergeOptions plus existing none = existing := by
  cases existing <;> rfl

variable (cols : HashMap String (ColAgg F))

theorem lookup_mergeCol_self (entry : Sigma fun _ : String => ColAgg F) :
    (mergeCol plus cols entry).lookup entry.1 =
      mergeOptions plus (cols.lookup entry.1) (some entry.2) := by
  unfold mergeCol
  split
  · next absent =>
      rw [absent]
      exact AList.lookup_insert cols
  · next existing found =>
      rw [found, mergeOptions]
      split
      · next agg merged =>
          rw [merged]
          exact AList.lookup_insert cols
      · next failed =>
          rw [failed]
          exact AList.lookup_erase _ cols

theorem lookup_mergeCol_of_ne (entry : Sigma fun _ : String => ColAgg F) {name : String}
    (different : name ≠ entry.1) : (mergeCol plus cols entry).lookup name = cols.lookup name := by
  unfold mergeCol
  split
  · exact AList.lookup_insert_ne different
  · split
    · exact AList.lookup_insert_ne different
    · exact AList.lookup_erase_ne different

theorem lookup_mergeCols (incoming : HashMap String (ColAgg F)) (name : String) :
    (mergeCols plus cols incoming).lookup name =
      mergeOptions plus (cols.lookup name) (incoming.lookup name) := by
  have other : ∀ cols entry, name ≠ entry.1 →
      (mergeCol (F := F) plus cols entry).lookup name = cols.lookup name :=
    fun cols entry different => lookup_mergeCol_of_ne cols entry different
  cases found : incoming.lookup name with
  | none =>
      rw [mergeOptions_none]
      apply read_foldl_of_notMem Sigma.fst
        (fun (cols : HashMap String (ColAgg F)) name => cols.lookup name) other
      intro entry member same
      apply AList.lookup_eq_none.mp found
      exact AList.mem_keys.mpr (List.mem_map.mpr ⟨entry, member, same⟩)
  | some agg =>
      have here : ∀ cols entry, entry.1 = name → (mergeCol (F := F) plus cols entry).lookup name =
          mergeOptions plus (cols.lookup name) (some entry.2) :=
        fun cols entry same => same ▸ lookup_mergeCol_self cols entry
      exact read_foldl_of_mem Sigma.fst
        (fun (cols : HashMap String (ColAgg F)) name => cols.lookup name) other
        (fun existing entry => mergeOptions plus existing (some entry.2)) here
        incoming.nodupKeys (List.of_mem_dlookup found) rfl

variable (merged part : SortedMap String (HashMap String (ColAgg F)))

theorem lookup_foldl_mergeGroup (key : String) :
    (part.entries.foldl (mergeGroup plus) merged).lookup key =
      match part.lookup key with
      | none => merged.lookup key
      | some cols => some (mergeCols plus ((merged.lookup key).getD ∅) cols) := by
  have other : ∀ merged group, key ≠ group.1 →
      (mergeGroup (F := F) plus merged group).lookup key = merged.lookup key :=
    fun merged group different => SortedMap.lookup_insert_of_ne merged different _
  cases found : part.lookup key with
  | none =>
      apply read_foldl_of_notMem Prod.fst SortedMap.lookup other
      rintro ⟨own, cols⟩ member rfl
      exact SortedMap.lookup_eq_none.mp found cols member
  | some cols =>
      have here : ∀ merged group, group.1 = key → (mergeGroup (F := F) plus merged group).lookup key =
          some (mergeCols plus ((merged.lookup key).getD ∅) group.2) := by
        rintro merged group rfl
        exact SortedMap.lookup_insert_self merged _ _
      exact read_foldl_of_mem Prod.fst SortedMap.lookup other
        (fun existing group => some (mergeCols plus (existing.getD ∅) group.2)) here
        (part.ascending.imp fun {_ _} => ne_of_lt) (SortedMap.lookup_eq_some.mp found) rfl

theorem isSome_foldl_mergeGroup (key : String) :
    ((part.entries.foldl (mergeGroup plus) merged).lookup key).isSome ↔
      (merged.lookup key).isSome ∨ (part.lookup key).isSome := by
  rw [lookup_foldl_mergeGroup]
  cases part.lookup key <;> simp

theorem groupCol_foldl_mergeGroup (key name : String) :
    groupCol (part.entries.foldl (mergeGroup plus) merged) key name =
      mergeOptions plus (groupCol merged key name) (groupCol part key name) := by
  rw [groupCol, groupCol, groupCol, lookup_foldl_mergeGroup]
  cases part.lookup key with
  | none => exact (mergeOptions_none _).symm
  | some cols =>
      rw [Option.bind_some, Option.bind_some, lookup_mergeCols]
      cases merged.lookup key with
      | none =>
          rw [Option.getD_none, AList.lookup_empty]
          rfl
      | some existing => rfl

/-- Merging gives the groups of all parts. -/
theorem isSome_mergeGrouped (parts : List (GroupedPartials F)) (key : String) :
    ((mergeGrouped plus parts).lookup key).isSome ↔
      ∃ part ∈ parts, (part.groups.lookup key).isSome := by
  suffices from_any : ∀ start : SortedMap String (HashMap String (ColAgg F)),
      ((parts.foldl (fun merged part => part.groups.entries.foldl (mergeGroup plus) merged)
        start).lookup key).isSome ↔
          (start.lookup key).isSome ∨ ∃ part ∈ parts, (part.groups.lookup key).isSome by
    rw [mergeGrouped, from_any]
    exact or_iff_right nofun
  induction parts with
  | nil => simp
  | cons part parts ih =>
      intro start
      rw [List.foldl_cons, ih, isSome_foldl_mergeGroup, or_assoc]
      simp

/-- Merging merges each column of each group over all parts. -/
theorem groupCol_mergeGrouped (parts : List (GroupedPartials F)) (key name : String) :
    groupCol (mergeGrouped plus parts) key name =
      (parts.map fun part => groupCol part.groups key name).foldl (mergeOptions plus) none := by
  suffices from_any : ∀ start : SortedMap String (HashMap String (ColAgg F)),
      groupCol (parts.foldl (fun merged part => part.groups.entries.foldl (mergeGroup plus) merged)
        start) key name = (parts.map fun part => groupCol part.groups key name).foldl (mergeOptions plus)
          (groupCol start key name) by
    exact from_any ∅
  induction parts with
  | nil => exact fun start => rfl
  | cons part parts ih =>
      intro start
      rw [List.foldl_cons, ih, groupCol_foldl_mergeGroup]
      rfl

end

/-! ## What is left of a group -/

/-- Aggregates of the live values of a column of a group with some rows. -/
def liveGroupCol (physical live : List Int) : ColAgg F :=
  if physical = [] then ColAgg.allNull else liveCol live

/-- Aggregates of a column exist exactly if its sum of squares fits. -/
theorem computeSignedIntCol_eq_ite (values : List (Option Int)) :
    computeSignedIntCol (F := F) values =
      if Moments.squares values.reduceOption < bound128 then
        some (liveGroupCol values.reduceOption values.reduceOption)
      else none := by
  rw [computeSignedIntCol_eq, liveGroupCol]
  by_cases nulls : values.reduceOption = []
  · have fits : Moments.squares values.reduceOption < bound128 := by
      rw [nulls]
      decide
    rw [if_pos nulls, if_pos fits, if_pos nulls]
  · rw [if_neg nulls, if_neg nulls]

theorem liveGroupCol_perm {physical live live' : List Int} (perm : live.Perm live') :
    liveGroupCol (F := F) physical live = liveGroupCol physical live' := by
  rw [liveGroupCol, liveGroupCol, liveCol, liveCol, perm.length_eq, perm.sum_eq,
    Moments.squares_perm perm]

/-- The aggregates of two parts of a column can be merged if the sum of squares fits. -/
theorem mergeTwoColAggs_liveGroupCol [Double F] {left left' right right' : List Int}
    (left_inside : left = [] → left' = []) (right_inside : right = [] → right' = [])
    (left_fits : Moments.squares left' < bound128)
    (right_fits : Moments.squares right' < bound128) :
    mergeTwoColAggs (F := F) (· + ·) (liveGroupCol left left') (liveGroupCol right right') =
      if Moments.squares (left' ++ right') < bound128 then
        some (liveGroupCol (left ++ right) (left' ++ right'))
      else none := by
  by_cases left_null : left = []
  · rw [left_null, left_inside left_null, List.nil_append, List.nil_append, if_pos right_fits]
    rw [liveGroupCol, if_pos rfl, liveGroupCol]
    split <;> simp [mergeTwoColAggs, mergeScalar, ColAgg.allNull, liveCol]
  · by_cases right_null : right = []
    · rw [right_null, right_inside right_null, List.append_nil, List.append_nil, if_pos left_fits]
      simp [liveGroupCol, left_null, mergeTwoColAggs, mergeScalar, ColAgg.allNull, liveCol]
    · have both : left ++ right ≠ [] := fun empty =>
        left_null (List.append_eq_nil_iff.mp empty).1
      rw [liveGroupCol, liveGroupCol, liveGroupCol, if_neg left_null, if_neg right_null,
        if_neg both, mergeTwoColAggs, liveCol, liveCol, mergeScalar, mergeScalar,
        ← List.sum_append, ← Moments.squares_append]
      have bounds := Moments.sum_bounds (left' ++ right')
      have nonneg := Moments.squares_nonneg (left' ++ right')
      by_cases fits : Moments.squares (left' ++ right') < bound128
      · rw [if_pos fits, Moments.checked_eq_some (by omega) (by omega),
          Moments.checked_eq_some (by omega) fits, liveCol, List.length_append]
        rfl
      · have failed : Moments.checked bound128 (Moments.squares (left' ++ right')) = none :=
          if_neg fun range => fits range.2
        rw [if_neg fits, failed]
        cases Moments.checked bound128 (left' ++ right').sum <;> rfl

end AggCache

end IcefallDB
