import IcefallDB.Lib.Digits
import IcefallDB.Lib.Options
import IcefallDB.Lib.Script
import Mathlib.Algebra.Order.Field.Rat
import Mathlib.Data.List.Induction
import Mathlib.Data.List.TakeWhile

/-!
# Inserts of the server

The server takes an `INSERT` statement apart and builds a batch from its values.  Values are put
into columns by their positions, and what is not a literal of the type of its column becomes null.
-/

namespace IcefallDB

namespace SqlInsert

/-! ## Statements -/

/-- The text of a number in a statement.  A sign is no part of it. -/
structure NumberLiteral where
  text : List Char
  unsigned : ∀ c ∈ text.head?, c ≠ '+' ∧ c ≠ '-'

/-- The exponent of a number behind its mark. -/
def exponentValue (text : List Char) : Int :=
  match text with
  | '-' :: digits => -(Nat.ofDigitChars 10 digits 0)
  | '+' :: digits => Nat.ofDigitChars 10 digits 0
  | digits => Nat.ofDigitChars 10 digits 0

/-- The number that a literal stands for. -/
def NumberLiteral.value (literal : NumberLiteral) : ℚ :=
  let mantissa := literal.text.takeWhile fun c => c ≠ 'e' && c ≠ 'E'
  let exponent := literal.text.drop (mantissa.length + 1)
  let whole := mantissa.takeWhile fun c => c ≠ '.'
  let fraction := mantissa.drop (whole.length + 1)
  (Nat.ofDigitChars 10 (whole ++ fraction) 0 : ℚ) *
    10 ^ (exponentValue exponent - fraction.length)

/-- What an expression stands for. -/
inductive SqlValue
  | null
  | number (value : ℚ)
  | string (value : String)
  | other (debug : String)

/-- An expression of a row. -/
inductive Expr
  | number (literal : NumberLiteral)
  | singleQuotedString (value : String)
  | null
  /-- A number with a minus sign. -/
  | negated (literal : NumberLiteral)
  /-- Any other expression, with its value. -/
  | other (value : SqlValue)

def Expr.value : Expr → SqlValue
  | .number literal => .number literal.value
  | .singleQuotedString value => .string value
  | .null => .null
  | .negated literal => .number (-literal.value)
  | .other value => value

/-- The rows of a statement.  There is one at least, and every row has an expression. -/
structure Values where
  rows : List (List Expr)
  nonempty : rows ≠ []
  inhabited : ∀ row ∈ rows, row ≠ []

/-- Where the rows of a statement come from. -/
inductive SetExpr
  | values (values : Values)
  | other

structure Insert where
  table : String
  /-- The names of the columns in the list of the statement, none without a list. -/
  columns : List String
  source : Option SetExpr

inductive Statement
  | insert (insert : Insert)
  | other

/-! ## Batches -/

inductive DataType
  | int64
  | utf8
  | other (name : String)

structure Field where
  name : String
  dataType : DataType
  nullable : Bool

inductive ArrowArray
  | int64 (values : List (Option Int))
  | utf8 (values : List (Option String))

def ArrowArray.length : ArrowArray → Nat
  | int64 values => values.length
  | utf8 values => values.length

/-- The value of a row. -/
def ArrowArray.cell (row : Nat) : ArrowArray → Option SqlValue
  | int64 values => values[row]?.map fun value => value.elim .null fun number => .number number
  | utf8 values => values[row]?.map fun value => value.elim .null .string

structure RecordBatch where
  columns : List ArrowArray
  numRows : Nat

def RecordBatch.cell (batch : RecordBatch) (row column : Nat) : Option SqlValue :=
  batch.columns[column]?.bind (ArrowArray.cell row)

/-- What is known of batches: they have the arrays that they are built from, of one length. -/
structure BatchRules (tryNew : List Field → List ArrowArray → Option RecordBatch) : Prop where
  columns : ∀ {fields arrays batch}, tryNew fields arrays = some batch → batch.columns = arrays
  length : ∀ {fields arrays batch}, tryNew fields arrays = some batch →
    ∀ array ∈ arrays, array.length = batch.numRows

/-! ## Parsing -/

inductive InsertError
  | other (message : String)
  | invalidSchema (reason path : String)
  | typeNotSupported (name : String)
  | arrow

/-- The array of a column from its expressions. -/
def exprsToArray : DataType → List Expr → Except InsertError ArrowArray
  | .int64, exprs =>
      .ok (.int64 (exprs.map fun expr =>
        match expr with
        | .number literal => parseI64 literal.text
        | _ => none))
  | .utf8, exprs =>
      .ok (.utf8 (exprs.map fun expr =>
        match expr with
        | .singleQuotedString value => some value
        | _ => none))
  | .other name, _ => .error (.typeNotSupported name)

/-- The expressions of a row behind those of the same columns. -/
def pushRow : List (List Expr) → List Expr → List (List Expr)
  | columns, [] => columns
  | [], expr :: row => [expr] :: pushRow [] row
  | column :: columns, expr :: row => (column ++ [expr]) :: pushRow columns row

/-- The expressions of every column. -/
def columnArrays (rows : List (List Expr)) : List (List Expr) :=
  rows.foldl pushRow []

/-- The table of an insert and the batch of its rows, from the first of the statements. -/
def parseInsertValues (tryNew : List Field → List ArrowArray → Option RecordBatch)
    (loadSchema : String → Except InsertError (Option (List Field))) :
    List Statement → Except InsertError (String × RecordBatch)
  | [] => .error (.other "empty SQL")
  | .other :: _ => .error (.other "expected INSERT")
  | .insert insert :: _ => do
      match ← loadSchema insert.table with
      | none => .error (.other "failed to convert schema")
      | some fields =>
          match insert.source with
          | none => .error (.other "expected VALUES source")
          | some .other => .error (.other "expected VALUES")
          | some (.values values) =>
              let columns := columnArrays values.rows
              if columns.length ≠ fields.length then
                .error (.invalidSchema
                  ("INSERT provides " ++ toString columns.length ++ " columns but table has " ++
                    toString fields.length) insert.table)
              else do
                let arrays ← (columns.zip fields).mapM fun column =>
                  exprsToArray column.2.dataType column.1
                match tryNew fields arrays with
                | none => .error .arrow
                | some batch => .ok (insert.table, batch)

/-! ## Columns -/

theorem getElem?_pushRow (columns : List (List Expr)) (row : List Expr) (position : Nat) :
    (pushRow columns row)[position]? =
      match columns[position]?, row[position]? with
      | some column, some expr => some (column ++ [expr])
      | some column, none => some column
      | none, some expr => some [expr]
      | none, none => none := by
  induction columns, row using pushRow.induct generalizing position with
  | case1 columns =>
      rw [pushRow]
      cases columns[position]? <;> rfl
  | case2 expr row ih =>
      rw [pushRow]
      cases position with
      | zero => rfl
      | succ position =>
          rw [List.getElem?_cons_succ, ih position]
          rfl
  | case3 column columns expr row ih =>
      rw [pushRow]
      cases position with
      | zero => rfl
      | succ position =>
          rw [List.getElem?_cons_succ, ih position]
          rfl

/-- A column has the expressions at its position, and there is no column without one. -/
theorem getElem?_columnArrays (rows : List (List Expr)) (position : Nat) :
    ((columnArrays rows)[position]?).getD [] = rows.filterMap (fun row => row[position]?) ∧
      (columnArrays rows)[position]? ≠ some [] := by
  induction rows using List.reverseRecOn with
  | nil => exact ⟨rfl, nofun⟩
  | append_singleton rows row ih =>
      obtain ⟨column_eq, inhabited⟩ := ih
      rw [columnArrays, List.foldl_append, List.foldl_cons, List.foldl_nil, ← columnArrays,
        getElem?_pushRow, List.filterMap_append, ← column_eq]
      cases found : (columnArrays rows)[position]? with
      | none => cases at_position : row[position]? <;> simp [at_position]
      | some column =>
          cases at_position : row[position]? with
          | none => simpa [at_position, found] using inhabited
          | some expr => simp [at_position]

/-! ## Meaning -/

/-- The value that a row of a statement gives to a column: without a list by position, with a list
that of the expression at the place of the name, and null without one. -/
def assigned (columns : List String) (row : List Expr) (position : Nat) (name : String) :
    SqlValue :=
  if columns = [] then ((row[position]?).map Expr.value).getD .null
  else ((columns.idxOf? name).bind fun place => (row[place]?).map Expr.value).getD .null

/-- A batch has the rows of a statement: the list names columns of the table, each once, every row
has an expression for each of them, and every column has its value. -/
structure Denotes (fields : List Field) (columns : List String) (rows : List (List Expr))
    (batch : RecordBatch) : Prop where
  distinct : columns.Nodup
  named : ∀ name ∈ columns, name ∈ fields.map Field.name
  width : ∀ row ∈ rows, row.length = if columns = [] then fields.length else columns.length
  numRows : batch.numRows = rows.length
  cells : ∀ (index : Nat) row, rows[index]? = some row → ∀ (position : Nat) field,
    fields[position]? = some field →
      batch.cell index position = some (assigned columns row position field.name)

/-- The literals that a type of columns takes: decimal integers of 64 bits, and quoted strings. -/
def isLiteral : DataType → Expr → Bool
  | .int64, .number literal => (parseI64 literal.text).isSome
  | .utf8, .singleQuotedString _ => true
  | _, _ => false

/-- The list, if there is one, names every column of the table once.  A column gets the value of the
expression at its position where that is a literal that its type takes, and null elsewhere. -/
structure Representable (fields : List Field) (columns : List String) (rows : List (List Expr)) :
    Prop where
  distinct : columns.Nodup
  named : ∀ name ∈ columns, name ∈ fields.map Field.name
  complete : columns = [] ∨ columns.length = fields.length
  literals : ∀ row ∈ rows, ∀ (position : Nat) field expr, fields[position]? = some field →
    row[position]? = some expr →
      assigned columns row position field.name =
        if isLiteral field.dataType expr then expr.value else .null

/-! ## What is accepted -/

/-- A literal without a point and an exponent is an integer. -/
theorem value_of_parseI64 {literal : NumberLiteral} {number : Int}
    (parsed : parseI64 literal.text = some number) : literal.value = number := by
  obtain ⟨text, unsigned⟩ := literal
  change parseI64 text = some number at parsed
  have digits : (∀ c ∈ text, c.isDigit = true) ∧ number = Nat.ofDigitChars 10 text 0 := by
    unfold parseI64 at parsed
    split at parsed
    · exact absurd rfl (unsigned '-' rfl).2
    · exact absurd rfl (unsigned '+' rfl).1
    · obtain ⟨value, value_eq, small⟩ := Option.bind_eq_some_iff.mp parsed
      split at small
      · obtain rfl := Option.some.inj small
        rw [parseDigits] at value_eq
        split at value_eq
        · cases value_eq
        · next all =>
            obtain rfl := Option.some.inj value_eq
            rw [Bool.not_eq_true, Bool.or_eq_false_iff, Bool.not_eq_false'] at all
            exact ⟨List.all_eq_true.mp all.2, rfl⟩
      · cases small
  obtain ⟨all, rfl⟩ := digits
  have mantissa : text.takeWhile (fun c => c ≠ 'e' && c ≠ 'E') = text := by
    rw [List.takeWhile_eq_self_iff]
    intro c member
    have other : c ≠ 'e' ∧ c ≠ 'E' := by
      constructor <;> rintro rfl <;> exact absurd (all _ member) (by decide)
    simpa using other
  have whole : text.takeWhile (fun c => c ≠ '.') = text := by
    rw [List.takeWhile_eq_self_iff]
    intro c member
    have other : c ≠ '.' := by
      rintro rfl
      exact absurd (all _ member) (by decide)
    simpa using other
  have nothing : text.drop (text.length + 1) = [] := List.drop_eq_nil_of_le (Nat.le_succ _)
  simp only [NumberLiteral.value, mantissa, whole, nothing, List.append_nil]
  simp [exponentValue]

/-- An array has the values of the literals among its expressions, and null for the others. -/
theorem cell_of_exprsToArray {dataType : DataType} {exprs : List Expr} {array : ArrowArray}
    (built : exprsToArray dataType exprs = .ok array) :
    array.length = exprs.length ∧ ∀ index : Nat, array.cell index =
      exprs[index]?.map fun expr => if isLiteral dataType expr then expr.value else .null := by
  cases dataType with
  | int64 =>
      obtain rfl := Except.ok.inj built
      refine ⟨List.length_map _, fun index => ?_⟩
      rw [ArrowArray.cell, List.getElem?_map, Option.map_map]
      congr 1
      funext expr
      cases expr with
      | number literal =>
          cases parsed : parseI64 literal.text with
          | none => simp [isLiteral, parsed]
          | some number => simp [isLiteral, parsed, Expr.value, value_of_parseI64 parsed]
      | _ => rfl
  | utf8 =>
      obtain rfl := Except.ok.inj built
      refine ⟨List.length_map _, fun index => ?_⟩
      rw [ArrowArray.cell, List.getElem?_map, Option.map_map]
      congr 1
      funext expr
      cases expr <;> rfl
  | other name => cases built

/-- Where all columns have the same length, every row has an expression in each of them. -/
theorem rows_of_lengths {values : Values} {count : Nat}
    (same : ∀ column ∈ columnArrays values.rows, column.length = count) :
    count = values.rows.length ∧
      (∀ row ∈ values.rows, row.length = (columnArrays values.rows).length) ∧
        ∀ position < (columnArrays values.rows).length, ∀ index : Nat,
          ((columnArrays values.rows)[position]?.bind fun column => column[index]?) =
            values.rows[index]?.bind fun row => row[position]? := by
  have column_eq : ∀ {position : Nat} {column : List Expr},
      (columnArrays values.rows)[position]? = some column →
        column = values.rows.filterMap fun row => row[position]? := by
    intro position column found
    rw [← (getElem?_columnArrays values.rows position).1, found]
    rfl
  have inside : ∀ row ∈ values.rows, ∀ position < row.length,
      position < (columnArrays values.rows).length := by
    intro row member position inside
    by_contra outside
    have none : (columnArrays values.rows)[position]? = none :=
      List.getElem?_eq_none (Nat.le_of_not_lt outside)
    have empty := (getElem?_columnArrays values.rows position).1
    rw [none, Option.getD_none, eq_comm, List.filterMap_eq_nil_iff] at empty
    have absent := empty row member
    rw [List.getElem?_eq_getElem inside] at absent
    cases absent
  have counted : ∀ position < (columnArrays values.rows).length,
      (values.rows.filterMap fun row => row[position]?).length = count := by
    intro position found
    have column := List.getElem?_eq_getElem found
    rw [← column_eq column]
    exact same _ (List.getElem_mem found)
  have count_eq : count = values.rows.length := by
    obtain ⟨first, first_member⟩ := List.exists_mem_of_ne_nil _ values.nonempty
    have room := inside first first_member 0
      (List.length_pos_of_ne_nil (values.inhabited first first_member))
    rw [← counted 0 room, List.filterMap_length_eq_length]
    intro row member
    rw [List.getElem?_eq_getElem (List.length_pos_of_ne_nil (values.inhabited row member))]
    rfl
  have present : ∀ position < (columnArrays values.rows).length, ∀ row ∈ values.rows,
      (row[position]?).isSome := by
    intro position found
    rw [← List.filterMap_length_eq_length, counted position found, count_eq]
  refine ⟨count_eq, ?_, ?_⟩
  · intro row member
    apply Nat.le_antisymm
    · by_contra longer
      exact Nat.lt_irrefl _ (inside row member _ (Nat.lt_of_not_le longer))
    · by_contra shorter
      have absent := present _ (Nat.lt_of_not_le shorter) row member
      rw [List.getElem?_eq_none (Nat.le_refl _)] at absent
      cases absent
  · intro position found index
    have column := List.getElem?_eq_getElem found
    have values_eq : (values.rows.filterMap fun row => row[position]?) =
        values.rows.map fun row => (row[position]?).getD .null := by
      rw [List.filterMap_eq_map_iff_forall_eq_some]
      intro row member
      obtain ⟨expr, expr_eq⟩ := Option.isSome_iff_exists.mp (present position found row member)
      rw [expr_eq, Option.getD_some]
    rw [column, Option.bind_some, column_eq column, values_eq, List.getElem?_map]
    cases at_index : values.rows[index]? with
    | none => rfl
    | some row =>
        obtain ⟨expr, expr_eq⟩ := Option.isSome_iff_exists.mp
          (present position found row (List.mem_of_getElem? at_index))
        rw [Option.map_some, Option.bind_some, expr_eq, Option.getD_some]

/-- Columns and fields are taken together one by one. -/
theorem arrays_of_mapM {columns : List (List Expr)} {fields : List Field}
    {arrays : List ArrowArray}
    (built : ((columns.zip fields).mapM fun column =>
      exprsToArray column.2.dataType column.1) = .ok arrays)
    (lengths : columns.length = fields.length) :
    ∀ (position : Nat) field, fields[position]? = some field → ∃ column array,
      columns[position]? = some column ∧ arrays[position]? = some array ∧
        exprsToArray field.dataType column = .ok array := by
  induction columns generalizing fields arrays with
  | nil =>
      cases fields with
      | nil => exact nofun
      | cons field fields => cases lengths
  | cons column columns ih =>
      cases fields with
      | nil => cases lengths
      | cons field fields =>
          rw [List.zip_cons_cons, List.mapM_cons] at built
          obtain ⟨array, array_eq, rest_built⟩ := Script.except_bind_eq_ok.mp built
          obtain ⟨rest, rest_eq, same⟩ := Script.except_bind_eq_ok.mp rest_built
          obtain rfl := Except.ok.inj same
          intro position other found
          cases position with
          | zero =>
              obtain rfl := Option.some.inj found
              exact ⟨column, array, rfl, rfl, array_eq⟩
          | succ position => exact ih rest_eq (Nat.succ.inj lengths) position other found

/-- The batch of an insert: its rows are as wide as the table, and a cell has the value of the
expression at its place if that is a literal that the column takes. -/
theorem cells_of_accepted {tryNew : List Field → List ArrowArray → Option RecordBatch}
    (rules : BatchRules tryNew) {loadSchema : String → Except InsertError (Option (List Field))}
    {insert : Insert} {others : List Statement} {values : Values} {fields : List Field}
    (source : insert.source = some (.values values))
    (loaded : loadSchema insert.table = .ok (some fields)) {table : String} {batch : RecordBatch}
    (accepted : parseInsertValues tryNew loadSchema (.insert insert :: others) =
      .ok (table, batch)) :
    batch.numRows = values.rows.length ∧ (∀ row ∈ values.rows, row.length = fields.length) ∧
      ∀ (index : Nat) row, values.rows[index]? = some row → ∀ (position : Nat) field expr,
        fields[position]? = some field → row[position]? = some expr →
          batch.cell index position =
            some (if isLiteral field.dataType expr then expr.value else .null) := by
  have started : (if (columnArrays values.rows).length ≠ fields.length then
      .error (.invalidSchema
        ("INSERT provides " ++ toString (columnArrays values.rows).length ++
          " columns but table has " ++ toString fields.length) insert.table)
      else do
        let arrays ← ((columnArrays values.rows).zip fields).mapM fun column =>
          exprsToArray column.2.dataType column.1
        match tryNew fields arrays with
        | none => .error .arrow
        | some batch => .ok (insert.table, batch) : Except InsertError (String × RecordBatch)) =
      .ok (table, batch) := by
    rw [← accepted, parseInsertValues, loaded]
    simp only [source, bind, Except.bind]
  split at started
  · cases started
  · next lengths =>
      obtain ⟨arrays, arrays_eq, finished⟩ := Script.except_bind_eq_ok.mp started
      rw [ne_eq, Decidable.not_not] at lengths
      split at finished
      · cases finished
      · next own own_eq =>
          obtain ⟨-, rfl⟩ := Prod.mk.inj (Except.ok.inj finished)
          have taken := arrays_of_mapM arrays_eq lengths
          have same : ∀ column ∈ columnArrays values.rows, column.length = own.numRows := by
            intro column member
            obtain ⟨position, at_position⟩ := List.getElem?_of_mem member
            have inside : position < fields.length := by
              rw [← lengths]
              exact (List.getElem?_eq_some_iff.mp at_position).1
            obtain ⟨other, array, other_eq, array_eq, built⟩ :=
              taken position _ (List.getElem?_eq_getElem inside)
            obtain rfl : column = other := Option.some.inj (at_position.symm.trans other_eq)
            rw [← (cell_of_exprsToArray built).1]
            exact rules.length own_eq array (List.mem_of_getElem? array_eq)
          obtain ⟨count_eq, widths, transposed⟩ := rows_of_lengths same
          refine ⟨count_eq, fun row member => (widths row member).trans lengths, ?_⟩
          intro index row at_index position field expr at_field at_row
          obtain ⟨column, array, column_eq, array_eq, built⟩ := taken position field at_field
          have inside := (List.getElem?_eq_some_iff.mp column_eq).1
          have at_column := transposed position inside index
          rw [column_eq, Option.bind_some, at_index, Option.bind_some, at_row] at at_column
          rw [RecordBatch.cell, rules.columns own_eq, array_eq, Option.bind_some,
            (cell_of_exprsToArray built).2, at_column, Option.map_some]

/-- An accepted insert gets the batch that the statement denotes, if and only if the list and the
literals of the statement are as the parser takes them. -/
theorem denotes_parseInsertValues_iff
    {tryNew : List Field → List ArrowArray → Option RecordBatch} (rules : BatchRules tryNew)
    {loadSchema : String → Except InsertError (Option (List Field))} {insert : Insert}
    {others : List Statement} {values : Values} {fields : List Field}
    (source : insert.source = some (.values values))
    (loaded : loadSchema insert.table = .ok (some fields)) {table : String} {batch : RecordBatch}
    (accepted : parseInsertValues tryNew loadSchema (.insert insert :: others) =
      .ok (table, batch)) :
    Denotes fields insert.columns values.rows batch ↔
      Representable fields insert.columns values.rows := by
  obtain ⟨count_eq, widths, cells⟩ := cells_of_accepted rules source loaded accepted
  constructor
  · intro denotes
    constructor
    · exact denotes.distinct
    · exact denotes.named
    · obtain ⟨row, member⟩ := List.exists_mem_of_ne_nil _ values.nonempty
      have width := denotes.width row member
      rw [widths row member] at width
      split at width
      · next none => exact .inl none
      · exact .inr width.symm
    · intro row member position field expr at_field at_row
      obtain ⟨index, at_index⟩ := List.getElem?_of_mem member
      have stored := cells index row at_index position field expr at_field at_row
      rw [denotes.cells index row at_index position field at_field] at stored
      exact Option.some.inj stored
  · intro representable
    constructor
    · exact representable.distinct
    · exact representable.named
    · intro row member
      rw [widths row member]
      split
      · rfl
      · next some => exact (representable.complete.resolve_left some).symm
    · exact count_eq
    · intro index row at_index position field at_field
      have member := List.mem_of_getElem? at_index
      have inside : position < row.length := by
        rw [widths row member]
        exact (List.getElem?_eq_some_iff.mp at_field).1
      have at_row := List.getElem?_eq_getElem inside
      rw [cells index row at_index position field _ at_field at_row,
        representable.literals row member position field _ at_field at_row]

/-- Whether an array has the type of a field, and no null where the field takes none. -/
def fits (field : Field) : ArrowArray → Bool
  | .int64 values =>
      match field.dataType with
      | .int64 => field.nullable || values.all Option.isSome
      | _ => false
  | .utf8 values =>
      match field.dataType with
      | .utf8 => field.nullable || values.all Option.isSome
      | _ => false

/-- Batches with one array of the right type for every field, all of one length. -/
def checkedBatch (fields : List Field) (arrays : List ArrowArray) : Option RecordBatch :=
  match arrays with
  | [] => none
  | first :: _ =>
      if arrays.length = fields.length ∧ (∀ array ∈ arrays, array.length = first.length) ∧
          ∀ pair ∈ fields.zip arrays, fits pair.1 pair.2 then
        some ⟨arrays, first.length⟩
      else none

theorem batchRules_checkedBatch : BatchRules checkedBatch := by
  constructor
  · intro fields arrays batch built
    unfold checkedBatch at built
    split at built
    · cases built
    · split at built
      · obtain rfl := Option.some.inj built
        rfl
      · cases built
  · intro fields arrays batch built
    unfold checkedBatch at built
    split at built
    · cases built
    · split at built
      · next checks =>
          obtain rfl := Option.some.inj built
          exact checks.2.1
      · cases built

def literalFields : List Field :=
  [⟨"a", .int64, false⟩, ⟨"b", .utf8, true⟩]

/-- Two rows of literals, and null for a nullable column. -/
def literalRows : List (List Expr) :=
  [[.number ⟨['7'], by simp⟩, .null], [.number ⟨['8'], by simp⟩, .singleQuotedString "x"]]

/-- The list names the columns in their own order. -/
theorem denotes_literals : ∃ batch, parseInsertValues checkedBatch
    (fun _ => .ok (some literalFields))
    [.insert ⟨"t", ["a", "b"], some (.values ⟨literalRows, by decide, by decide⟩)⟩] =
      .ok ("t", batch) ∧
    Denotes literalFields ["a", "b"] literalRows batch := by
  have representable : Representable literalFields ["a", "b"] literalRows := by
    constructor
    · decide
    · decide
    · exact .inr rfl
    · intro row member position field expr at_field at_row
      rcases List.mem_cons.mp member with rfl | rest
      on_goal 2 => obtain rfl := List.mem_singleton.mp rest
      all_goals
        match position with
        | 0 =>
            obtain rfl := Option.some.inj at_field
            obtain rfl := Option.some.inj at_row
            rfl
        | 1 =>
            obtain rfl := Option.some.inj at_field
            obtain rfl := Option.some.inj at_row
            rfl
        | position + 2 => cases at_field
  have accepted : parseInsertValues checkedBatch (fun _ => .ok (some literalFields))
      [.insert ⟨"t", ["a", "b"], some (.values ⟨literalRows, by decide, by decide⟩)⟩] =
        .ok ("t", ⟨[.int64 [some 7, some 8], .utf8 [none, some "x"]], 2⟩) := rfl
  refine ⟨_, accepted, ?_⟩
  exact (denotes_parseInsertValues_iff batchRules_checkedBatch rfl rfl accepted).mpr representable

/-- A negative number becomes null, and a list in another order is not followed. -/
theorem not_denotes :
    (∃ batch, parseInsertValues checkedBatch (fun _ => .ok (some [⟨"a", .int64, true⟩]))
      [.insert ⟨"t", [], some (.values
        ⟨[[.negated ⟨['5'], by simp⟩]], by decide, by decide⟩)⟩] = .ok ("t", batch) ∧
      ¬ Denotes [⟨"a", .int64, true⟩] [] [[.negated ⟨['5'], by simp⟩]] batch) ∧
    ∃ batch, parseInsertValues checkedBatch
      (fun _ => .ok (some [⟨"a", .utf8, false⟩, ⟨"b", .utf8, false⟩]))
      [.insert ⟨"t", ["b", "a"], some (.values
        ⟨[[.singleQuotedString "x", .singleQuotedString "y"]], by decide, by decide⟩)⟩] =
          .ok ("t", batch) ∧
      ¬ Denotes [⟨"a", .utf8, false⟩, ⟨"b", .utf8, false⟩] ["b", "a"]
        [[.singleQuotedString "x", .singleQuotedString "y"]] batch := by
  constructor
  · refine ⟨⟨[.int64 [none]], 1⟩, rfl, ?_⟩
    intro denotes
    have cell := denotes.cells 0 _ rfl 0 _ rfl
    have stored : (⟨[.int64 [none]], 1⟩ : RecordBatch).cell 0 0 = some .null := rfl
    rw [stored] at cell
    cases cell
  · refine ⟨⟨[.utf8 [some "x"], .utf8 [some "y"]], 1⟩, rfl, ?_⟩
    intro denotes
    have cell := denotes.cells 0 _ rfl 0 _ rfl
    have stored : (⟨[.utf8 [some "x"], .utf8 [some "y"]], 1⟩ : RecordBatch).cell 0 0 =
        some (.string "x") := rfl
    have given : assigned ["b", "a"] [.singleQuotedString "x", .singleQuotedString "y"] 0 "a" =
        .string "y" := by
      simp [assigned, Expr.value, List.idxOf?, List.findIdx?, List.findIdx?.go]
    rw [stored, given] at cell
    exact absurd (SqlValue.string.inj (Option.some.inj cell)) (by decide)

end SqlInsert

end IcefallDB
