import IcefallDB.Lib.Moments
import IcefallDB.RowIndex
import Mathlib.Data.List.ReduceOption

/-!
# Partial aggregates

The aggregate sidecar of a fragment holds count, sum and sum of squares of each numeric column over
the physical rows of the fragment.  When rows of the fragment are deleted, their contribution is
computed from the data file and subtracted.
-/

namespace IcefallDB

/-! ## Columns -/

/-- Arithmetic of 64-bit floating-point numbers. -/
class Double (F : Type) extends Zero F, Add F, Sub F, Mul F where
  /-- Round to a 32-bit number. -/
  toSingle : F → F

/-- Integers in place of floats, for tables without float columns. -/
instance : Double Int where
  toSingle := id

/-- Kinds of numeric columns. -/
inductive NumericKind
  | signed | unsigned | float
  deriving DecidableEq

/-- Values of a numeric column. -/
inductive NumericArray (F : Type)
  | ints (values : List (Option Int))
  | floats (values : List (Option F))

/-- How the numeric columns of a table are read off its rows. -/
structure NumericKernel (R F : Type) where
  columns : HashMap String NumericKind
  intValue : String → R → Option Int
  floatValue : String → R → Option F

/-- A column of a batch. -/
def NumericKernel.array {R F : Type} (kernel : NumericKernel R F) (name : String)
    (kind : NumericKind) (rows : List R) : NumericArray F :=
  match kind with
  | .float => .floats (rows.map (kernel.floatValue name))
  | .signed | .unsigned => .ints (rows.map (kernel.intValue name))

variable {R F : Type}

/-! ## Partials of a fragment -/

/-- An additive value of a numeric column. -/
inductive AggScalar (F : Type)
  | int (value : Int)
  | float (value : F)
  /-- The column contains only nulls. -/
  | null
  deriving DecidableEq

/-- Additive aggregates of a column. -/
structure ColAgg (F : Type) where
  countNonNull : Nat
  sum : AggScalar F
  sumsq : AggScalar F
  deriving DecidableEq

namespace ColAgg

/-- Aggregates of a column of nulls. -/
def allNull : ColAgg F :=
  { countNonNull := 0, sum := .null, sumsq := .null }

/-- Aggregates of a column of integers. -/
def ofMoments (moments : Moments) : ColAgg F :=
  { countNonNull := moments.count, sum := .int moments.sum, sumsq := .int moments.sumsq }

end ColAgg

/-- Partial aggregates of a fragment. -/
structure FragmentAggState (F : Type) where
  fragmentId : Nat
  /-- Checksum of the data file. -/
  contentHash : String
  cols : HashMap String (ColAgg F)

namespace AggCache

/-- Bound of the integers of 128 bits. -/
abbrev bound128 : Int := 2 ^ 127

/-- Aggregates of an integer column, unless an operation overflows. -/
def computeSignedIntCol (values : List (Option Int)) : Option (ColAgg F) :=
  if values.all Option.isNone then some ColAgg.allNull
  else (Moments.ofList bound128 values.reduceOption).map ColAgg.ofMoments

section Floats

variable [Double F]

/-- Aggregates of the values of a float column that are not null. -/
def floatMoments (values : List F) : ColAgg F :=
  { countNonNull := values.length
    sum := .float (values.foldl (· + ·) 0)
    sumsq := .float (values.foldl (fun total value => total + value * value) 0) }

/-- Aggregates of a float column. -/
def computeFloatCol (values : List (Option F)) : ColAgg F :=
  if values.all Option.isNone then ColAgg.allNull else floatMoments values.reduceOption

/-- Aggregates of a column. -/
def computeCol : NumericArray F → Option (ColAgg F)
  | .ints values => computeSignedIntCol values
  | .floats values => some (computeFloatCol values)

/-- Partial aggregates of a batch.  A column whose sums overflow has none. -/
def computeAggState (kernel : NumericKernel R F) (fragmentId : Nat) (contentHash : String)
    (rows : List R) : FragmentAggState F :=
  { fragmentId
    contentHash
    cols := HashMap.filterMap (fun name kind => computeCol (kernel.array name kind rows))
      kernel.columns }

/-! ## Retracting deleted rows -/

/-- Aggregates of the deleted values of a column, unless an operation overflows. -/
def deletedCol : NumericArray F → Option (ColAgg F)
  | .ints values => (Moments.ofList bound128 values.reduceOption).map fun moments =>
      if moments.count = 0 then ColAgg.allNull else ColAgg.ofMoments moments
  | .floats values => some (computeFloatCol values)

/-- The rows at deleted offsets. -/
def deletedRows (deletions : DeletionVector) (rows : List R) : List R :=
  (rows.zipIdx.filter fun row => row.2 ∈ deletions).map Prod.fst

/-- Contribution of the deleted rows to some numeric columns. -/
def deletedContribution (kernel : NumericKernel R F) (storage : TableStorage R)
    (entry : RowGroupEntry) (deletions : DeletionVector) (numericCols : List String) :
    Option (HashMap String (ColAgg F)) :=
  if deletions = ∅ then some ∅
  else
    match storage.files.lookup entry.data with
    | some (.data rows) =>
        let batch := deletedRows deletions rows
        let arrays := HashMap.filterMap (fun name kind =>
          if name ∈ numericCols then some (kernel.array name kind batch) else none) kernel.columns
        if batch.isEmpty then some ∅
        else if arrays.entries.all fun entry => (deletedCol entry.2).isSome then
          some (HashMap.filterMap (fun _ array => deletedCol array) arrays)
        else none
    | _ => none

/-- Subtract a deleted value, if both are of one kind. -/
def retractScalar : AggScalar F → AggScalar F → Option (AggScalar F)
  | .int full, .int deleted => (Moments.checked bound128 (full - deleted)).map .int
  | .float full, .float deleted => some (.float (full - deleted))
  | .null, .null => some .null
  | full, .null => some full
  | _, _ => none

/-- Subtract the contribution of deleted rows from the aggregates of a column. -/
def retractCol (full deleted : ColAgg F) : Option (ColAgg F) := do
  let sum ← retractScalar full.sum deleted.sum
  let sumsq ← retractScalar full.sumsq deleted.sumsq
  some { countNonNull := full.countNonNull - deleted.countNonNull, sum, sumsq }

/-- Subtract the contribution of deleted rows.  A column for which that fails is dropped. -/
def retract (full : FragmentAggState F) (deleted : HashMap String (ColAgg F)) :
    FragmentAggState F :=
  { full with
    cols := HashMap.filterMap (fun name agg =>
      match deleted.lookup name with
      | none => some agg
      | some contribution => retractCol agg contribution) full.cols }

end Floats

/-! ## What is left after retraction -/

theorem reduceOption_eq_nil {values : List (Option Int)} :
    values.reduceOption = [] ↔ values.all Option.isNone := by
  simp [List.reduceOption]

theorem perm_deletedRows_liveRows (deletions : DeletionVector) (rows : List R) :
    rows.Perm (deletedRows deletions rows ++ liveRows deletions rows) := by
  have split := List.filter_append_perm (fun row : R × Nat => decide (row.2 ∈ deletions))
    rows.zipIdx
  have mapped := split.map Prod.fst
  rw [List.map_append, List.zipIdx_map_fst] at mapped
  simpa [deletedRows, liveRows] using mapped.symm

/-- The values of a column that are not null. -/
def ints (kernel : NumericKernel R F) (name : String) (rows : List R) : List Int :=
  (rows.map (kernel.intValue name)).reduceOption

theorem perm_ints (kernel : NumericKernel R F) (name : String) (deletions : DeletionVector)
    (rows : List R) : (ints kernel name rows).Perm (ints kernel name (deletedRows deletions rows) ++
      ints kernel name (liveRows deletions rows)) := by
  have mapped := (perm_deletedRows_liveRows deletions rows).map (kernel.intValue name)
  rw [List.map_append] at mapped
  rw [ints, ints, ints, ← List.reduceOption_append]
  exact mapped.filterMap id

/-- Aggregates of a column of integers that has values, some of them live. -/
def liveCol (live : List Int) : ColAgg F :=
  { countNonNull := live.length, sum := .int live.sum, sumsq := .int (Moments.squares live) }

theorem computeSignedIntCol_eq (values : List (Option Int)) :
    computeSignedIntCol (F := F) values =
      if values.reduceOption = [] then some ColAgg.allNull
      else if Moments.squares values.reduceOption < bound128 then some (liveCol values.reduceOption)
      else none := by
  rw [computeSignedIntCol, Moments.ofList_eq (by decide)]
  by_cases empty : values.reduceOption = []
  · rw [if_pos (reduceOption_eq_nil.mp empty), if_pos empty]
  · rw [if_neg fun all => empty (reduceOption_eq_nil.mpr all), if_neg empty]
    by_cases fits : Moments.squares values.reduceOption < bound128
    · rw [if_pos fits, if_pos fits]
      rfl
    · rw [if_neg fits, if_neg fits]
      rfl

section

variable [Double F]

/-- Retracting the deleted values leaves the aggregates of the live ones. -/
theorem retractCol_liveCol {all deleted live : List Int} (perm : all.Perm (deleted ++ live))
    (fits : Moments.squares all < bound128) :
    retractCol (F := F) (liveCol all)
      (if deleted = [] then ColAgg.allNull else liveCol deleted) = some (liveCol live) := by
  obtain ⟨sum_eq, squares_eq, length_eq⟩ := Moments.sub_of_perm perm
  by_cases none_deleted : deleted = []
  · subst none_deleted
    simp only [List.sum_nil, Moments.squares_nil, List.length_nil, Int.sub_zero, Nat.sub_zero]
      at sum_eq squares_eq length_eq
    simp [retractCol, retractScalar, liveCol, ColAgg.allNull, sum_eq, squares_eq, length_eq]
  · have removed := Moments.squares_nonneg deleted
    have bounds := Moments.sum_bounds live
    have sum_fits : Moments.checked bound128 (all.sum - deleted.sum) = some live.sum := by
      rw [sum_eq]
      exact Moments.checked_eq_some (by omega) (by omega)
    have squares_fit : Moments.checked bound128 (Moments.squares all - Moments.squares deleted) =
        some (Moments.squares live) := by
      rw [squares_eq]
      have nonneg := Moments.squares_nonneg live
      exact Moments.checked_eq_some (by omega) (by omega)
    simp [if_neg none_deleted, retractCol, retractScalar, liveCol, sum_fits, squares_fit, length_eq]

theorem deletedCol_ints {values : List (Option Int)}
    (fits : Moments.squares values.reduceOption < bound128) :
    deletedCol (F := F) (.ints values) = some
      (if values.reduceOption = [] then ColAgg.allNull else liveCol values.reduceOption) := by
  rw [deletedCol, Moments.ofList_eq (by decide), if_pos fits, Option.map_some]
  simp only [List.length_eq_zero_iff]
  rfl

end

end AggCache

end IcefallDB
