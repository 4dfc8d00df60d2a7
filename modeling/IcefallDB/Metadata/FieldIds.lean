import Mathlib.Algebra.Order.BigOperators.Group.List
import Mathlib.Data.List.Nodup
import Mathlib.Order.Defs.LinearOrder

/-!
# Field ids

Columns carry integer ids that survive renumbering of the schema.  A new version of a schema takes
over the ids of the columns that it shares with its predecessor; all its other columns get ids above
every id that was given before.
-/

namespace IcefallDB

/-- A column of a schema, with its stable id. -/
structure Column where
  name : String
  fieldId : Int
  deriving DecidableEq

/-- The columns of one version of a schema. -/
structure SchemaVersion where
  columns : List Column
  /-- Names of columns that were dropped from the schema. -/
  droppedColumns : List String := []
  /-- Highest id ever assigned, to dropped columns too. -/
  maxFieldId : Int := 0
  deriving DecidableEq

/-- A value as a signed integer of 32 bits. -/
def wrap32 (value : Int) : Int :=
  (value + 2 ^ 31) % 2 ^ 32 - 2 ^ 31

theorem wrap32_eq {value : Int} (low : -2 ^ 31 ≤ value) (high : value < 2 ^ 31) :
    wrap32 value = value := by
  rw [wrap32, Int.emod_eq_of_lt] <;> omega

namespace SchemaVersion

/-! ## Assigning ids -/

/-- The id that a column has in the previous version, if it was not dropped there. -/
def previousId (previous : Option SchemaVersion) (name : String) : Option Int :=
  match previous with
  | none => none
  | some version =>
      let kept := version.columns.filter fun column =>
        column.fieldId > 0 && column.name ∉ version.droppedColumns
      (kept.reverse.find? fun column => column.name = name).map Column.fieldId

/-- The highest positive id of a column, or zero. -/
def highestColumnId (version : SchemaVersion) : Int :=
  (version.columns.map Column.fieldId).foldl max 0

/-- The highest id that a version knows of. -/
def highWater (previous : Option SchemaVersion) : Int :=
  match previous with
  | none => 0
  | some version => max (max version.maxFieldId 0) version.highestColumnId

/-- Assign ids to columns, given the next free one.  Returns the next free id after that. -/
def assignColumns (ids : String → Option Int) : Int → List Column → List Column × Int
  | nextId, [] => ([], nextId)
  | nextId, column :: columns =>
      match ids column.name with
      | some id =>
          let (rest, last) := assignColumns ids nextId columns
          ({ column with fieldId := id } :: rest, last)
      | none =>
          let (rest, last) := assignColumns ids (wrap32 (nextId + 1)) columns
          ({ column with fieldId := nextId } :: rest, last)

/-- Assign ids to all columns of a version. -/
def assignFieldIds (version : SchemaVersion) (previous : Option SchemaVersion) : SchemaVersion :=
  let nextId := wrap32 (max (highWater previous) (max version.maxFieldId 0) + 1)
  let (columns, last) := assignColumns (previousId previous) nextId version.columns
  let previousMax :=
    match previous with
    | none => 0
    | some before => max before.maxFieldId 0
  { version with
    columns
    maxFieldId := max (max (max version.maxFieldId 0) previousMax) (wrap32 (last - 1)) }

/-- Assign ids to one version after the other. -/
def assignAll (previous : Option SchemaVersion) : List SchemaVersion → List SchemaVersion
  | [] => []
  | version :: versions =>
      let assigned := version.assignFieldIds previous
      assigned :: assignAll (some assigned) versions

/-! ## What ids promise -/

/-- The ids of a version are distinct, and positive up to the highest one. -/
structure Numbered (version : SchemaVersion) : Prop where
  distinct : (version.columns.map Column.fieldId).Nodup
  bounded : ∀ column ∈ version.columns, 0 < column.fieldId ∧ column.fieldId ≤ version.maxFieldId

/-- The next version keeps the ids of the columns that were not dropped, and the highest id. -/
structure Continues (previous next : SchemaVersion) : Prop where
  keeps : ∀ old ∈ previous.columns, ∀ column ∈ next.columns, column.name = old.name →
    old.name ∉ previous.droppedColumns → column.fieldId = old.fieldId
  increases : previous.maxFieldId ≤ next.maxFieldId

/-- A column of the previous version is dropped before the next one. -/
def Drops (previous next : SchemaVersion) (column : Column) : Prop :=
  column.name ∈ previous.droppedColumns ∨ column.name ∉ next.columns.map Column.name

/-- A version with its ids has the columns, by their names and in order, and the dropped names that were
given. -/
structure Relabels (version assigned : SchemaVersion) : Prop where
  names : assigned.columns.map Column.name = version.columns.map Column.name
  dropped : assigned.droppedColumns = version.droppedColumns

/-- Ids are stable along versions of a schema, and the id of a dropped column is never given again. -/
structure Stable (versions : List SchemaVersion) : Prop where
  numbered : ∀ version ∈ versions, version.Numbered
  continues : versions.IsChain Continues
  retired : ∀ past previous next future, versions = past ++ previous :: next :: future →
    ∀ column ∈ previous.columns, previous.Drops next column →
      ∀ later ∈ next :: future, column.fieldId ∉ later.columns.map Column.fieldId

/-- The columns of a version that inherit no id. -/
def freshColumns (previous : Option SchemaVersion) (version : SchemaVersion) : List Column :=
  version.columns.filter fun column => previousId previous column.name = none

/-- The number of ids given or reserved once a version has its ids. -/
def idsGiven (previous : Option SchemaVersion) (version : SchemaVersion) : Int :=
  max (highWater previous) (max version.maxFieldId 0) + (version.freshColumns previous).length

/-- Fewer ids than the highest integer of 32 bits are given or reserved along the versions. -/
def Fits (previous : Option SchemaVersion) : List SchemaVersion → Prop
  | [] => True
  | version :: versions =>
      version.idsGiven previous < 2 ^ 31 - 1 ∧ Fits (some (version.assignFieldIds previous)) versions

/-! ## Assigning the ids of one version -/

variable {version previous : SchemaVersion} {ids : String → Option Int} {nextId : Int}
  {columns : List Column}

/-- The previous id of a column is the one that the previous version gave it. -/
theorem previousId_eq_some {name : String} {id : Int}
    (found : previousId (some previous) name = some id) :
    ∃ column ∈ previous.columns, column.name = name ∧ column.fieldId = id ∧
      name ∉ previous.droppedColumns := by
  obtain ⟨column, column_eq, id_eq⟩ := Option.map_eq_some_iff.mp found
  have named := List.find?_some column_eq
  have listed := List.mem_reverse.mp (List.mem_of_find?_eq_some column_eq)
  obtain ⟨member, kept⟩ := List.mem_filter.mp listed
  rw [Bool.and_eq_true, decide_eq_true_iff, decide_eq_true_iff] at kept
  have name_eq : column.name = name := of_decide_eq_true named
  exact ⟨column, member, name_eq, id_eq, name_eq ▸ kept.2⟩

/-- A column that was not dropped has its previous id. -/
theorem previousId_of_mem (distinct : (previous.columns.map Column.name).Nodup) {old : Column}
    (member : old ∈ previous.columns) (positive : 0 < old.fieldId)
    (kept : old.name ∉ previous.droppedColumns) :
    previousId (some previous) old.name = some old.fieldId := by
  cases found : previousId (some previous) old.name with
  | none =>
      have missing := List.find?_eq_none.mp (Option.map_eq_none_iff.mp found) old
      simp [member, positive, kept] at missing
  | some id =>
      obtain ⟨column, listed, name_eq, id_eq, -⟩ := previousId_eq_some found
      rw [← id_eq, List.inj_on_of_nodup_map distinct listed member name_eq]

/-- Whatever ids are given, the columns stay. -/
theorem map_name_assignColumns (ids : String → Option Int) (nextId : Int) (columns : List Column) :
    (assignColumns ids nextId columns).1.map Column.name = columns.map Column.name := by
  induction columns generalizing nextId with
  | nil => rfl
  | cons column columns ih => cases found : ids column.name <;> simp [assignColumns, found, ih]

/-- What assigning ids to columns returns, as long as they fit. -/
structure Assigned (ids : String → Option Int) (nextId : Int) (columns assigned : List Column)
    (last : Int) : Prop where
  advances : last = nextId + (columns.filter fun column => ids column.name = none).length
  given : ∀ column ∈ assigned, ids column.name = some column.fieldId ∨
    ids column.name = none ∧ nextId ≤ column.fieldId ∧ column.fieldId < last
  distinct : (assigned.map Column.fieldId).Nodup

theorem assigned_assignColumns (low : 0 ≤ nextId)
    (high : nextId + (columns.filter fun column => ids column.name = none).length < 2 ^ 31)
    (below : ∀ name id, ids name = some id → id < nextId)
    (apart : ∀ name other id, ids name = some id → ids other = some id → name = other)
    (names : (columns.map Column.name).Nodup) :
    Assigned ids nextId columns (assignColumns ids nextId columns).1
      (assignColumns ids nextId columns).2 := by
  induction columns generalizing nextId with
  | nil =>
      constructor
      · simp [assignColumns]
      · exact fun _ => nofun
      · exact List.nodup_nil
  | cons column columns ih =>
      rw [List.map_cons, List.nodup_cons] at names
      cases inherited : ids column.name with
      | some id =>
          simp only [List.filter_cons, inherited, reduceCtorEq, decide_false, Bool.false_eq_true,
            if_false] at high
          obtain ⟨advances, given, distinct⟩ := ih low high below names.2
          have starts : nextId ≤ (assignColumns ids nextId columns).2 := by omega
          simp only [assignColumns, inherited]
          constructor
          · simp [inherited, advances]
          · intro other member
            rcases List.mem_cons.mp member with same | later
            · subst same
              exact .inl inherited
            · exact given other later
          · rw [List.map_cons, List.nodup_cons]
            constructor
            · intro repeated
              obtain ⟨other, member, id_eq⟩ := List.mem_map.mp repeated
              simp only at id_eq
              rcases given other member with kept | ⟨-, fresh, -⟩
              · -- two names cannot have one previous id
                rw [id_eq] at kept
                have same := apart _ _ id kept inherited
                have listed : other.name ∈ columns.map Column.name :=
                  map_name_assignColumns ids nextId columns ▸ List.mem_map_of_mem member
                exact names.1 (same ▸ listed)
              · have old := below column.name id inherited
                omega
            · exact distinct
      | none =>
          simp only [List.filter_cons, inherited, decide_true, if_true, List.length_cons] at high
          push_cast at high
          have wrapped : wrap32 (nextId + 1) = nextId + 1 := wrap32_eq (by omega) (by omega)
          have still_below : ∀ name id, ids name = some id → id < nextId + 1 := by
            intro name id found
            have earlier := below name id found
            omega
          obtain ⟨advances, given, distinct⟩ :=
            ih (by omega : 0 ≤ nextId + 1) (by omega) still_below names.2
          simp only [assignColumns, inherited, wrapped]
          constructor
          · rw [advances, List.filter_cons, inherited]
            simp only [decide_true, if_true, List.length_cons]
            push_cast
            omega
          · intro other member
            rcases List.mem_cons.mp member with same | later
            · subst same
              right
              simp only
              exact ⟨inherited, Int.le_refl nextId, by omega⟩
            · rcases given other later with kept | ⟨fresh, above, under⟩
              · exact .inl kept
              · exact .inr ⟨fresh, by omega, under⟩
          · rw [List.map_cons, List.nodup_cons]
            constructor
            · intro repeated
              obtain ⟨other, member, id_eq⟩ := List.mem_map.mp repeated
              simp only at id_eq
              rcases given other member with kept | ⟨-, above, -⟩
              · have old := below other.name _ kept
                omega
              · omega
            · exact distinct

/-- A predecessor as `assignFieldIds` leaves it. -/
structure Predecessor (version : SchemaVersion) : Prop where
  numbered : version.Numbered
  names : (version.columns.map Column.name).Nodup
  reserves : 0 ≤ version.maxFieldId

theorem Predecessor.highWater_eq (before : previous.Predecessor) :
    highWater (some previous) = previous.maxFieldId := by
  have bounded : ∀ (ids : List Int) (start : Int), start ≤ previous.maxFieldId →
      (∀ id ∈ ids, id ≤ previous.maxFieldId) → ids.foldl max start ≤ previous.maxFieldId := by
    intro ids
    induction ids with
    | nil => exact fun start small _ => small
    | cons id ids ih =>
        intro start small all
        apply ih (max start id)
        · exact max_le small (all id List.mem_cons_self)
        · exact fun other member => all other (List.mem_cons_of_mem id member)
  have highest : previous.highestColumnId ≤ previous.maxFieldId := by
    apply bounded _ 0 before.reserves
    intro id member
    obtain ⟨column, listed, id_eq⟩ := List.mem_map.mp member
    exact id_eq ▸ (before.numbered.bounded column listed).2
  have reserves := before.reserves
  simp only [highWater]
  omega

/-- What a version gets from its predecessor. -/
structure Succeeds (previous : Option SchemaVersion) (version next : SchemaVersion) : Prop where
  ready : next.Predecessor
  given : ∀ column ∈ next.columns, previousId previous column.name = some column.fieldId ∨
    previousId previous column.name = none ∧ highWater previous < column.fieldId
  increases : highWater previous ≤ next.maxFieldId

theorem succeeds_assignFieldIds {previous : Option SchemaVersion}
    (before : ∀ earlier, previous = some earlier → earlier.Predecessor)
    (names : (version.columns.map Column.name).Nodup)
    (fits : version.idsGiven previous < 2 ^ 31 - 1) :
    Succeeds previous version (version.assignFieldIds previous) := by
  have start : 0 ≤ highWater previous := by
    cases previous with
    | none => exact Int.le_refl 0
    | some earlier =>
        rw [(before earlier rfl).highWater_eq]
        exact (before earlier rfl).reserves
  rw [idsGiven, freshColumns] at fits
  have next_eq : wrap32 (max (highWater previous) (max version.maxFieldId 0) + 1) =
      max (highWater previous) (max version.maxFieldId 0) + 1 := wrap32_eq (by omega) (by omega)
  have below : ∀ name id, previousId previous name = some id →
      0 < id ∧ id ≤ highWater previous := by
    intro name id found
    cases previous with
    | none => cases found
    | some earlier =>
        obtain ⟨column, member, -, id_eq, -⟩ := previousId_eq_some found
        rw [(before earlier rfl).highWater_eq, ← id_eq]
        exact (before earlier rfl).numbered.bounded column member
  have apart : ∀ name other id, previousId previous name = some id →
      previousId previous other = some id → name = other := by
    intro name other id found again
    cases previous with
    | none => cases found
    | some earlier =>
        obtain ⟨column, member, name_eq, id_eq, -⟩ := previousId_eq_some found
        obtain ⟨twin, listed, twin_eq, same_id, -⟩ := previousId_eq_some again
        rw [← name_eq, ← twin_eq, List.inj_on_of_nodup_map (before earlier rfl).numbered.distinct
          member listed (id_eq.trans same_id.symm)]
  have low : 0 ≤ max (highWater previous) (max version.maxFieldId 0) + 1 := by omega
  have high : max (highWater previous) (max version.maxFieldId 0) + 1 +
      (version.columns.filter fun column => previousId previous column.name = none).length <
        2 ^ 31 := by omega
  have under : ∀ name id, previousId previous name = some id →
      id < max (highWater previous) (max version.maxFieldId 0) + 1 := by
    intro name id found
    have old := below name id found
    omega
  have assigned := assigned_assignColumns low high under apart names
  have last_eq : wrap32 ((assignColumns (previousId previous)
      (max (highWater previous) (max version.maxFieldId 0) + 1) version.columns).2 - 1) =
      max (highWater previous) (max version.maxFieldId 0) +
        (version.columns.filter fun column => previousId previous column.name = none).length := by
    rw [assigned.advances, wrap32_eq] <;> omega
  have reserved : max (highWater previous) (max version.maxFieldId 0) +
      (version.columns.filter fun column => previousId previous column.name = none).length ≤
        (version.assignFieldIds previous).maxFieldId := by
    simp only [assignFieldIds, next_eq, last_eq]
    exact Int.le_max_right _ _
  have columns_eq : (version.assignFieldIds previous).columns = (assignColumns (previousId previous)
      (max (highWater previous) (max version.maxFieldId 0) + 1) version.columns).1 := by
    simp only [assignFieldIds, next_eq]
  have advances := assigned.advances
  constructor
  · constructor
    · constructor
      · rw [columns_eq]
        exact assigned.distinct
      · intro column member
        rw [columns_eq] at member
        rcases assigned.given column member with kept | ⟨-, above, under⟩
        · have old := below column.name _ kept
          omega
        · omega
    · rw [columns_eq, map_name_assignColumns]
      exact names
    · omega
  · intro column member
    rw [columns_eq] at member
    rcases assigned.given column member with kept | ⟨fresh, above, -⟩
    · exact .inl kept
    · exact .inr ⟨fresh, by omega⟩
  · omega

/-! ## Versions in a row -/

variable {versions : List SchemaVersion} {next : SchemaVersion}

theorem Succeeds.continues (before : previous.Predecessor)
    (succeeds : Succeeds (some previous) version next) : previous.Continues next := by
  constructor
  · intro old member column listed name_eq kept
    have inherited : previousId (some previous) column.name = some old.fieldId :=
      name_eq ▸ previousId_of_mem before.names member (before.numbered.bounded old member).1 kept
    rcases succeeds.given column listed with found | ⟨fresh, -⟩
    · rw [inherited] at found
      exact (Option.some.inj found).symm
    · rw [inherited] at fresh
      cases fresh
  · rw [← before.highWater_eq]
    exact succeeds.increases

/-- An id that a predecessor does not give, but has reserved, is not given again. -/
theorem Succeeds.notMem (before : previous.Predecessor)
    (succeeds : Succeeds (some previous) version next) {id : Int} (reserved : id ≤ previous.maxFieldId)
    (unused : id ∉ previous.columns.map Column.fieldId) :
    id ∉ next.columns.map Column.fieldId := by
  intro listed
  obtain ⟨column, member, id_eq⟩ := List.mem_map.mp listed
  rcases succeeds.given column member with found | ⟨-, above⟩
  · obtain ⟨old, old_member, -, same_id, -⟩ := previousId_eq_some found
    exact unused (id_eq ▸ same_id ▸ List.mem_map_of_mem old_member)
  · rw [before.highWater_eq] at above
    omega

/-- The id of a column that is dropped is not in the next version. -/
theorem Succeeds.retires (before : previous.Predecessor)
    (succeeds : Succeeds (some previous) version next) {column : Column}
    (member : column ∈ previous.columns) (drops : previous.Drops next column) :
    column.fieldId ∉ next.columns.map Column.fieldId := by
  intro listed
  obtain ⟨taker, taken, id_eq⟩ := List.mem_map.mp listed
  have bounded := before.numbered.bounded column member
  rcases succeeds.given taker taken with found | ⟨-, above⟩
  · obtain ⟨old, old_member, name_eq, same_id, kept⟩ := previousId_eq_some found
    have same : old = column := List.inj_on_of_nodup_map before.numbered.distinct old_member member
      (same_id.trans id_eq)
    subst same
    rcases drops with dropped | gone
    · exact kept (name_eq ▸ dropped)
    · exact gone (name_eq ▸ List.mem_map_of_mem taken)
  · rw [before.highWater_eq] at above
    omega

/-- Every version of a run succeeds the one before it, and no id that is given up comes back. -/
theorem notMem_assignAll (before : previous.Predecessor)
    (names : ∀ version ∈ versions, (version.columns.map Column.name).Nodup)
    (fits : Fits (some previous) versions) {id : Int} (reserved : id ≤ previous.maxFieldId)
    (unused : id ∉ previous.columns.map Column.fieldId) :
    ∀ later ∈ assignAll (some previous) versions, id ∉ later.columns.map Column.fieldId := by
  induction versions generalizing previous with
  | nil => exact fun _ => nofun
  | cons version versions ih =>
      have succeeds : Succeeds (some previous) version _ := succeeds_assignFieldIds
        (fun _ same => Option.some.inj same ▸ before) (names version List.mem_cons_self) fits.1
      have absent := succeeds.notMem before reserved unused
      intro later member
      rcases List.mem_cons.mp member with same | deeper
      · rw [same]
        exact absent
      · apply ih succeeds.ready
        · exact fun other listed => names other (List.mem_cons_of_mem version listed)
        · exact fits.2
        · exact reserved.trans (before.highWater_eq ▸ succeeds.increases)
        · exact absent
        · exact deeper

/-- The versions after a predecessor are stable together with it. -/
theorem stable_cons (before : previous.Predecessor)
    (names : ∀ version ∈ versions, (version.columns.map Column.name).Nodup)
    (fits : Fits (some previous) versions) :
    Stable (previous :: assignAll (some previous) versions) := by
  induction versions generalizing previous with
  | nil =>
      constructor
      · intro version member
        rw [List.mem_singleton.mp member]
        exact before.numbered
      · exact List.IsChain.singleton previous
      · intro past former next future split
        have lengths := congrArg List.length split
        simp [assignAll] at lengths
        omega
  | cons version versions ih =>
      have succeeds : Succeeds (some previous) version _ := succeeds_assignFieldIds
        (fun _ same => Option.some.inj same ▸ before) (names version List.mem_cons_self) fits.1
      have later_names : ∀ other ∈ versions, (other.columns.map Column.name).Nodup :=
        fun other listed => names other (List.mem_cons_of_mem version listed)
      have stable := ih succeeds.ready later_names fits.2
      constructor
      · intro other member
        rcases List.mem_cons.mp member with same | later
        · rw [same]
          exact before.numbered
        · exact stable.numbered other later
      · exact List.isChain_cons_cons.mpr ⟨succeeds.continues before, stable.continues⟩
      · intro past former next future split column member drops later listed
        cases past with
        | nil =>
            -- the column is dropped by the first step
            obtain ⟨rfl, tail_eq⟩ := List.cons.inj split
            obtain ⟨rfl, rfl⟩ := List.cons.inj tail_eq
            have retired := succeeds.retires before member drops
            rcases List.mem_cons.mp listed with same | deeper
            · rw [same]
              exact retired
            · have bounded := (before.numbered.bounded column member).2
              exact notMem_assignAll succeeds.ready later_names fits.2
                (bounded.trans (before.highWater_eq ▸ succeeds.increases)) retired later deeper
        | cons first past =>
            exact stable.retired past former next future (List.cons.inj split).2 column member drops
              later listed

/-- Assigning ids changes nothing but ids. -/
theorem relabels_assignFieldIds (version : SchemaVersion) (previous : Option SchemaVersion) :
    version.Relabels (version.assignFieldIds previous) :=
  ⟨map_name_assignColumns _ _ _, rfl⟩

theorem forall₂_assignAll (previous : Option SchemaVersion) (versions : List SchemaVersion) :
    List.Forall₂ Relabels versions (assignAll previous versions) := by
  induction versions generalizing previous with
  | nil => exact .nil
  | cons version versions ih => exact .cons (relabels_assignFieldIds version previous) (ih _)

/-- Along versions of a schema that each take over the ids of their predecessor, every version keeps its
columns and its dropped names, and ids are stable and never reused. -/
theorem stable_assignAll (names : ∀ version ∈ versions, (version.columns.map Column.name).Nodup)
    (fits : Fits none versions) :
    List.Forall₂ Relabels versions (assignAll none versions) ∧ Stable (assignAll none versions) := by
  refine ⟨forall₂_assignAll none versions, ?_⟩
  cases versions with
  | nil =>
      constructor
      · exact fun _ => nofun
      · exact List.IsChain.nil
      · intro past former next future split
        exact absurd split.symm (by simp [assignAll])
  | cons version versions =>
      have succeeds : Succeeds none version _ :=
        succeeds_assignFieldIds (fun _ => nofun) (names version List.mem_cons_self) fits.1
      exact stable_cons succeeds.ready
        (fun other listed => names other (List.mem_cons_of_mem version listed)) fits.2

/-- A column `b` is dropped, and comes back under its name while `c` is new. -/
theorem stable_readded :
    let versions : List SchemaVersion :=
      [{ columns := [⟨"a", 0⟩, ⟨"b", 0⟩], droppedColumns := [] },
       { columns := [⟨"a", 0⟩], droppedColumns := ["b"] },
       { columns := [⟨"c", 0⟩, ⟨"b", 0⟩, ⟨"a", 0⟩], droppedColumns := [] }]
    List.Forall₂ Relabels versions (assignAll none versions) ∧ Stable (assignAll none versions) := by
  apply stable_assignAll
  · decide
  · simp only [Fits, and_true]
    decide

end SchemaVersion

end IcefallDB
