import IcefallDB.Lib.JsonCodec
import IcefallDB.Lib.Options
import IcefallDB.Writer.Mutate

/-!
# Planning updates

An UPDATE gives the located rows the values of its SET list.  The rows are read and projected, or,
if literals of the SET list and of the predicate determine all columns, built without reading them.
Both give the same batch exactly if the literals of the SET list have the data types of their
columns, and the other columns are found by their names and hold the literals that the predicate
compares them with.
-/

namespace IcefallDB

/-- Scalars with data types.  A cast to its own data type leaves a scalar as it is. -/
structure ArrowScalars (V T : Type) where
  dataType : V → T
  isNull : V → Bool
  castTo : V → T → Option V
  castTo_self : ∀ value, castTo value (dataType value) = some value

/-- A data column of a table. -/
structure DataField (T : Type) where
  name : String
  dataType : T
  nullable : Bool

/-- Expressions over the columns of a table.  What is not looked into has a data type and computes a
value from the cells of a row. -/
inductive SetExpr (V T : Type)
  | literal (value : V)
  | named (expr : SetExpr V T) (name : String)
  | column (name : String)
  | other (dataType : T) (value : List V → Option V)

/-- Predicates, as far as columns are compared with literals. -/
inductive UpdatePredicate (V T : Type)
  | and (left right : UpdatePredicate V T)
  | eq (left right : SetExpr V T)
  | other (holds : List V → Option Bool)

/-- New rows with their locations, and the data types of their columns. -/
structure UpdateBatch (V T : Type) where
  types : List T
  rows : List (List V)
  locs : List MatchLoc
  deriving DecidableEq

/-- Two batches have the same data types, and the same rows at the same locations. -/
def UpdateBatch.Same {V T : Type} (left right : UpdateBatch V T) : Prop :=
  left.types = right.types ∧ (left.rows.zip left.locs).Perm (right.rows.zip right.locs)

namespace PlanUpdate

variable {V T : Type}

/-! ## Literals -/

/-- The literal that an expression is.  Casts are not looked into. -/
def exprAsLiteral : SetExpr V T → Option V
  | .literal value => some value
  | .named expr _ => exprAsLiteral expr
  | .column _ | .other _ _ => none

/-- The literals that a predicate compares columns with, added to others. -/
def collectEqPins : UpdatePredicate V T → HashMap String V → HashMap String V
  | .and left right, pins => collectEqPins right (collectEqPins left pins)
  | .eq left right, pins =>
      match left, exprAsLiteral right with
      | .column name, some value => pins.insert name value
      | _, _ =>
          match exprAsLiteral left, right with
          | some value, .column name => pins.insert name value
          | _, _ => pins
  | .other _, pins => pins

/-- The SET expressions by column; the last one for a column counts. -/
def collectSets (sets : List (String × SetExpr V T)) : HashMap String (SetExpr V T) :=
  sets.foldl (fun setMap set => setMap.insert set.1 set.2) ∅

/-- The literal that a column gets without reading. -/
def determined (setMap : HashMap String (SetExpr V T)) (pins : HashMap String V)
    (field : DataField T) : Option V :=
  match setMap.lookup field.name with
  | some expr => exprAsLiteral expr
  | none => pins.lookup field.name

/-! ## Plans -/

variable (arrow : ArrowScalars V T) (fields : List (DataField T)) (resolves : String → Bool)

/-- Columns that are not nullable have no nulls. -/
def nullsAllowed (rows : List (List V)) : Bool :=
  rows.all fun row => (fields.zip row).all fun cell => cell.1.nullable || !arrow.isNull cell.2

/-- The new rows, built without reading the old ones.  Batches have some column. -/
def tryBlindDeterminedUpdate (setMap : HashMap String (SetExpr V T))
    (predicate : UpdatePredicate V T) (locs : List MatchLoc) : Option (UpdateBatch V T) :=
  if setMap.entries.all fun entry => (exprAsLiteral entry.2).isSome then do
    let pins := collectEqPins predicate ∅
    let values ← fields.mapM fun field =>
      (determined setMap pins field).bind fun scalar => arrow.castTo scalar field.dataType
    let rows := List.replicate locs.length values
    if fields.isEmpty || !nullsAllowed arrow fields rows then none
    else some { types := fields.map DataField.dataType, rows, locs }
  else none

/-- The data type of an expression, if its columns exist. -/
def exprType : SetExpr V T → Option T
  | .literal value => some (arrow.dataType value)
  | .named expr _ => exprType expr
  | .column name => (fields.find? fun field => field.name = name).map DataField.dataType
  | .other dataType _ => some dataType

/-- The value of an expression on a row. -/
def evaluate (cells : List V) : SetExpr V T → Option V
  | .literal value => some value
  | .named expr _ => evaluate cells expr
  | .column name => cells[(fields.map DataField.name).idxOf name]?
  | .other _ value => value cells

/-- The expression for a column: that of the SET list under the name of the column, or itself. -/
def projected (setMap : HashMap String (SetExpr V T)) (field : DataField T) : SetExpr V T :=
  match setMap.lookup field.name with
  | some expr => .named expr field.name
  | none => .column field.name

/-- The new rows, from the located rows, which are read by their row ids.  The data types are those
of the expressions, unless there are no rows.  `resolves` says which names `col` takes for the columns
with these names: the engine folds letters to lower case and splits names at dots.  With another name
planning fails, since there is no such column or it is projected twice. -/
def readUpdate (setMap : HashMap String (SetExpr V T)) (located : List (MatchLoc × List V)) :
    Option (UpdateBatch V T) :=
  if fields.isEmpty then none
  else if located.isEmpty then
    some { types := fields.map DataField.dataType, rows := [], locs := [] }
  else if fields.any fun field => (setMap.lookup field.name).isNone && !resolves field.name then none
  else do
    let projection := fields.map (projected setMap)
    let types ← projection.mapM (exprType arrow fields)
    let rows ← located.mapM fun row => projection.mapM (evaluate fields row.2)
    if nullsAllowed arrow fields rows then some { types, rows, locs := located.map Prod.fst }
    else none

/-! ## Agreement with reading -/

/-- The literals of the SET list have the data types of their columns, and the other columns are
found by their names and hold in the located rows what the predicate compares them with, cast to their
data types. -/
structure HoldsLiterals (setMap : HashMap String (SetExpr V T)) (predicate : UpdatePredicate V T)
    (located : List (MatchLoc × List V)) : Prop where
  sets : ∀ field ∈ fields, ∀ expr ∈ setMap.lookup field.name, ∀ value ∈ exprAsLiteral expr,
    arrow.dataType value = field.dataType
  names : ∀ field ∈ fields, setMap.lookup field.name = none → resolves field.name = true
  pins : ∀ field ∈ fields, setMap.lookup field.name = none → ∀ row ∈ located,
    evaluate fields row.2 (.column field.name) =
      ((collectEqPins predicate ∅).lookup field.name).bind fun pin =>
        arrow.castTo pin field.dataType

variable {arrow fields resolves} {setMap : HashMap String (SetExpr V T)}
  {predicate : UpdatePredicate V T}

theorem exprType_of_literal {expr : SetExpr V T} {value : V}
    (literal : exprAsLiteral expr = some value) :
    exprType arrow fields expr = some (arrow.dataType value) := by
  induction expr with
  | literal own => exact congrArg (fun found => found.map arrow.dataType) literal
  | named expr name ih => exact ih literal
  | column name => cases literal
  | other dataType compute => cases literal

theorem evaluate_of_literal {expr : SetExpr V T} {value : V}
    (literal : exprAsLiteral expr = some value) (cells : List V) :
    evaluate fields cells expr = some value := by
  induction expr with
  | literal own => exact literal
  | named expr name ih => exact ih literal
  | column name => cases literal
  | other dataType compute => cases literal

/-- A batch that is built without reading has the same row for all locations. -/
theorem tryBlindDeterminedUpdate_eq_some {locs : List MatchLoc} {batch : UpdateBatch V T}
    (blind : tryBlindDeterminedUpdate arrow fields setMap predicate locs = some batch) :
    (∀ expr, (∃ name, setMap.lookup name = some expr) → (exprAsLiteral expr).isSome) ∧
      ∃ values, fields.mapM (fun field =>
          (determined setMap (collectEqPins predicate ∅) field).bind fun scalar =>
            arrow.castTo scalar field.dataType) = some values ∧ fields ≠ [] ∧
        nullsAllowed arrow fields (List.replicate locs.length values) = true ∧
        batch = { types := fields.map DataField.dataType
                  rows := List.replicate locs.length values
                  locs } := by
  obtain ⟨literals, blind⟩ := Option.ite_none_right_eq_some.mp blind
  obtain ⟨values, values_eq, blind⟩ := Option.bind_eq_some_iff.mp blind
  obtain ⟨checks, same⟩ := Option.ite_none_left_eq_some.mp blind
  rw [Bool.or_eq_true, not_or, Bool.not_eq_true', Bool.not_eq_false, List.isEmpty_iff] at checks
  constructor
  · rintro expr ⟨name, found⟩
    exact List.all_eq_true.mp literals _ (AList.mem_lookup_iff.mp found)
  · exact ⟨values, values_eq, checks.1, checks.2, (Option.some.inj same).symm⟩

/-- A batch that reads finds the columns and has the types and the values of the projection. -/
theorem readUpdate_eq_some {located : List (MatchLoc × List V)} {batch : UpdateBatch V T}
    (columns : fields ≠ []) (rows : located ≠ []) :
    readUpdate arrow fields resolves setMap located = some batch ↔
      (∀ field ∈ fields, setMap.lookup field.name = none → resolves field.name = true) ∧
        fields.mapM (fun field => exprType arrow fields (projected setMap field)) =
          some batch.types ∧
        located.mapM (fun row => fields.mapM fun field =>
          evaluate fields row.2 (projected setMap field)) = some batch.rows ∧
        nullsAllowed arrow fields batch.rows = true ∧ batch.locs = located.map Prod.fst := by
  have each : ∀ f : SetExpr V T → Option V, (fields.map (projected setMap)).mapM f =
      fields.mapM fun field => f (projected setMap field) := fun _ => List.mapM_map
  have types_each : (fields.map (projected setMap)).mapM (exprType arrow fields) =
      fields.mapM fun field => exprType arrow fields (projected setMap field) := List.mapM_map
  rw [readUpdate, if_neg (by rwa [List.isEmpty_iff]), if_neg (by rwa [List.isEmpty_iff])]
  simp only [each, types_each]
  have found : (fields.any fun field =>
      (setMap.lookup field.name).isNone && !resolves field.name) = false ↔
        ∀ field ∈ fields, setMap.lookup field.name = none → resolves field.name = true := by
    simp [List.any_eq_false]
  rw [← found]
  constructor
  · intro read
    obtain ⟨names, read⟩ := Option.ite_none_left_eq_some.mp read
    rw [Bool.not_eq_true] at names
    obtain ⟨types, types_eq, read⟩ := Option.bind_eq_some_iff.mp read
    obtain ⟨values, values_eq, read⟩ := Option.bind_eq_some_iff.mp read
    obtain ⟨allowed, same⟩ := Option.ite_none_right_eq_some.mp read
    obtain rfl := Option.some.inj same
    exact ⟨names, types_eq, values_eq, allowed, rfl⟩
  · rintro ⟨names, types_eq, values_eq, allowed, locs_eq⟩
    rw [if_neg (by rw [names]; exact Bool.false_ne_true), types_eq, Option.bind_eq_bind,
      Option.bind_some, values_eq, Option.bind_eq_bind, Option.bind_some, if_pos allowed, ← locs_eq]

/-- Rows at locations are one row at these locations in some order exactly if each is this row. -/
theorem perm_zip_replicate_iff {locs others : List MatchLoc} (perm : locs.Perm others)
    {rows : List (List V)} (values : List V) (length : rows.length = others.length) :
    ((List.replicate locs.length values).zip locs).Perm (rows.zip others) ↔
      rows = List.replicate others.length values := by
  constructor
  · intro zipped
    have firsts := zipped.map Prod.fst
    rw [List.map_fst_zip List.length_replicate.le, List.map_fst_zip length.le,
      List.replicate_perm, perm.length_eq] at firsts
    exact firsts.symm
  · rintro rfl
    have beside : ∀ list : List MatchLoc, (List.replicate list.length values).zip list =
        list.map fun loc => (values, loc) := by
      intro list
      rw [← List.map_const', List.map_prod_right_eq_zip]
    rw [beside, beside]
    exact perm.map _

section

variable (distinct : (fields.map DataField.name).Nodup)
  (literals : ∀ expr, (∃ name, setMap.lookup name = some expr) → (exprAsLiteral expr).isSome)
  {field : DataField T} (member : field ∈ fields)

include distinct member in
theorem find?_name : (fields.find? fun other => other.name = field.name) = some field := by
  have some_found : (fields.find? fun other => other.name = field.name).isSome :=
    List.find?_isSome.mpr ⟨field, member, decide_eq_true rfl⟩
  obtain ⟨other, found⟩ := Option.isSome_iff_exists.mp some_found
  have same := List.find?_some found
  rw [found, List.inj_on_of_nodup_map distinct (List.mem_of_find?_eq_some found) member
    (of_decide_eq_true same)]

include literals

include distinct member in
/-- The type of a column in a batch that reads is its own if its literal has this type. -/
theorem exprType_projected_iff :
    exprType arrow fields (projected setMap field) = some field.dataType ↔
      ∀ expr ∈ setMap.lookup field.name, ∀ value ∈ exprAsLiteral expr,
        arrow.dataType value = field.dataType := by
  unfold projected
  split
  · next expr found =>
      obtain ⟨value, value_eq⟩ := Option.isSome_iff_exists.mp (literals expr ⟨_, found⟩)
      rw [exprType, exprType_of_literal value_eq, found]
      simp [value_eq]
  · next absent =>
      rw [exprType, find?_name distinct member, absent]
      simp

/-- What a column gets by reading is what it gets without. -/
theorem evaluate_projected_iff {pins : HashMap String V} {cells : List V}
    (typed : ∀ expr ∈ setMap.lookup field.name, ∀ value ∈ exprAsLiteral expr,
      arrow.dataType value = field.dataType) :
    (evaluate fields cells (projected setMap field) =
        (determined setMap pins field).bind fun scalar => arrow.castTo scalar field.dataType) ↔
      (setMap.lookup field.name = none → evaluate fields cells (.column field.name) =
        (pins.lookup field.name).bind fun pin => arrow.castTo pin field.dataType) := by
  rw [projected, determined]
  cases found : setMap.lookup field.name with
  | some expr =>
      obtain ⟨value, value_eq⟩ := Option.isSome_iff_exists.mp (literals expr ⟨_, found⟩)
      have own := typed expr found value value_eq
      dsimp only
      rw [evaluate, evaluate_of_literal value_eq, value_eq, Option.bind_some, ← own,
        arrow.castTo_self]
      simp
  | none => simp

end

/-- The batch that is built without reading is the one that reading gives exactly if the rows hold
the literals. -/
theorem tryBlindDeterminedUpdate_same_iff (distinct : (fields.map DataField.name).Nodup)
    {locs : List MatchLoc} {located : List (MatchLoc × List V)}
    (perm : locs.Perm (located.map Prod.fst)) {batch : UpdateBatch V T}
    (blind : tryBlindDeterminedUpdate arrow fields setMap predicate locs = some batch) :
    (∃ read, readUpdate arrow fields resolves setMap located = some read ∧ batch.Same read) ↔
      located = [] ∨ HoldsLiterals arrow fields resolves setMap predicate located := by
  obtain ⟨literals, values, values_eq, columns, allowed, rfl⟩ :=
    tryBlindDeterminedUpdate_eq_some blind
  by_cases rows : located = []
  · subst rows
    obtain rfl := perm.eq_nil
    have read : readUpdate arrow fields resolves setMap [] =
        some { types := fields.map DataField.dataType, rows := [], locs := [] } := by
      rw [readUpdate, if_neg (by rwa [List.isEmpty_iff]), if_pos List.isEmpty_nil]
    exact ⟨fun _ => .inl rfl, fun _ => ⟨_, read, rfl, .refl _⟩⟩
  · have own_types : fields.mapM (fun field => some field.dataType) =
        some (fields.map DataField.dataType) := List.mapM_pure
    have length : located.length = locs.length := by
      rw [perm.length_eq, List.length_map]
    rw [or_iff_right rows]
    constructor
    · rintro ⟨read, read_eq, same_types, same_rows⟩
      obtain ⟨names, types_eq, rows_eq, -, locs_eq⟩ := (readUpdate_eq_some columns rows).mp read_eq
      have beside := List.forall₂_of_mapM_eq_some rows_eq
      dsimp only at same_types same_rows
      rw [locs_eq, perm_zip_replicate_iff perm values
        (beside.length_eq.symm.trans (List.length_map _).symm)] at same_rows
      rw [← same_types, List.mapM_eq_some_iff_agree own_types] at types_eq
      have typed := fun field member =>
        (exprType_projected_iff distinct literals member).mp (types_eq field member)
      constructor
      · exact typed
      · exact names
      · intro field member unset row row_mem
        obtain ⟨post, post_mem, post_eq⟩ := beside.exists_of_mem_left row_mem
        rw [same_rows] at post_mem
        rw [List.eq_of_mem_replicate post_mem, List.mapM_eq_some_iff_agree values_eq] at post_eq
        exact (evaluate_projected_iff literals (typed field member)).mp (post_eq field member) unset
    · intro holds
      refine ⟨{ types := fields.map DataField.dataType
                rows := List.replicate located.length values
                locs := located.map Prod.fst }, ?_, rfl, ?_⟩
      · rw [readUpdate_eq_some columns rows]
        refine ⟨holds.names, ?_, ?_, ?_, rfl⟩
        · rw [List.mapM_eq_some_iff_agree own_types]
          intro field member
          exact (exprType_projected_iff distinct literals member).mpr (holds.sets field member)
        · have same_rows : located.mapM (fun _ => some values) =
              some (List.replicate located.length values) := by
            rw [← List.map_const']
            exact List.mapM_pure
          rw [List.mapM_eq_some_iff_agree same_rows]
          intro row row_mem
          rw [List.mapM_eq_some_iff_agree values_eq]
          intro field member
          apply (evaluate_projected_iff literals (holds.sets field member)).mpr
          exact fun unset => holds.pins field member unset row row_mem
        · rw [length]
          exact allowed
      · dsimp only
        rw [perm_zip_replicate_iff perm values, List.length_map]
        rw [List.length_replicate, List.length_map]

end PlanUpdate

/-! ## Some updates -/

namespace IntegerUpdate

open PlanUpdate

/-- Integers of two widths. -/
inductive Width
  | int64
  | int32
  deriving DecidableEq

/-- An integer, or null, of a width. -/
structure WideInt where
  width : Width
  value : Option Int
  deriving DecidableEq

/-- Integers are cast if they fit. -/
def integers : ArrowScalars WideInt Width where
  dataType := WideInt.width
  isNull scalar := scalar.value.isNone
  castTo scalar width :=
    if width = scalar.width ∨ ∀ value ∈ scalar.value, -2 ^ 31 ≤ value ∧ value < 2 ^ 31 then
      some { scalar with width }
    else none
  castTo_self scalar := by
    rw [if_pos (.inl rfl)]

/-- A key of 64 bits and a value of 32 bits. -/
def keyedFields : List (DataField Width) :=
  [{ name := "id", dataType := .int64, nullable := false },
    { name := "v", dataType := .int32, nullable := true }]

/-- A predicate `id = 7`. -/
def keySeven : UpdatePredicate WideInt Width :=
  .eq (.column "id") (.literal ⟨.int64, some 7⟩)

/-- The row with the key 7. -/
def rowSeven : List (MatchLoc × List WideInt) :=
  [(⟨1, 0, 3⟩, [⟨.int64, some 7⟩, ⟨.int32, some 70⟩])]

/-- The names that consist of lower-case letters. -/
def lowerCase (name : String) : Bool :=
  name.toList.all Char.isLower

/-- A SET list `v = 5` with a literal of some width. -/
def setFive (width : Width) : HashMap String (SetExpr WideInt Width) :=
  collectSets [("v", .literal ⟨width, some 5⟩)]

/-- The batch that is built from the literals. -/
def fiveBatch : UpdateBatch WideInt Width where
  types := [.int64, .int32]
  rows := [[⟨.int64, some 7⟩, ⟨.int32, some 5⟩]]
  locs := [⟨1, 0, 3⟩]

theorem tryBlindDeterminedUpdate_setFive (width : Width) :
    tryBlindDeterminedUpdate integers keyedFields (setFive width) keySeven [⟨1, 0, 3⟩] =
      some fiveBatch := by
  cases width with
  | int64 => decide
  | int32 => decide

/-- A literal of the width of its column is set as a read would do. -/
theorem same_of_int32 :
    ∃ read, readUpdate integers keyedFields lowerCase (setFive .int32) rowSeven = some read ∧
      fiveBatch.Same read := by
  apply (tryBlindDeterminedUpdate_same_iff (by decide) (.refl _)
    (tryBlindDeterminedUpdate_setFive .int32)).mpr
  right
  constructor
  · decide
  · decide
  · decide

/-- A literal of another width is cast, while a read leaves it as it is. -/
theorem not_same_of_int64 :
    tryBlindDeterminedUpdate integers keyedFields (setFive .int64) keySeven [⟨1, 0, 3⟩] =
        some fiveBatch ∧
      ¬∃ read, readUpdate integers keyedFields lowerCase (setFive .int64) rowSeven = some read ∧
        fiveBatch.Same read := by
  constructor
  · exact tryBlindDeterminedUpdate_setFive .int64
  · have read_eq : readUpdate integers keyedFields lowerCase (setFive .int64) rowSeven =
        some { fiveBatch with
          types := [.int64, .int64]
          rows := [[⟨.int64, some 7⟩, ⟨.int64, some 5⟩]] } := by decide
    rintro ⟨read, found, same, -⟩
    rw [read_eq] at found
    obtain rfl := Option.some.inj found
    exact absurd same (by decide)

end IntegerUpdate

end IcefallDB
