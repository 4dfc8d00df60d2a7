import Mathlib.Algebra.BigOperators.Group.List.Basic
import Mathlib.Data.List.Range

/-!
# Run-length selections

A selection of the rows of a file is a list of runs that are selected or skipped.  It stands for one
flag per row.
-/

/-- A run of rows that is selected or skipped. -/
structure RowSelector where
  rowCount : Nat
  skip : Bool
  deriving DecidableEq

namespace RowSelector

/-- Select some rows. -/
def select (rowCount : Nat) : RowSelector :=
  { rowCount, skip := false }

/-- Skip some rows. -/
def skipRows (rowCount : Nat) : RowSelector :=
  { rowCount, skip := true }

/-- The flags of a run. -/
def flags (selector : RowSelector) : List Bool :=
  List.replicate selector.rowCount !selector.skip

@[simp]
theorem flags_select (rowCount : Nat) :
    (select rowCount).flags = List.replicate rowCount true := rfl

@[simp]
theorem flags_skipRows (rowCount : Nat) :
    (skipRows rowCount).flags = List.replicate rowCount false := rfl

end RowSelector

namespace RowSelection

/-- One flag for each row: whether it is selected. -/
def flags (selectors : List RowSelector) : List Bool :=
  selectors.flatMap RowSelector.flags

@[simp]
theorem flags_nil : flags [] = [] := rfl

@[simp]
theorem flags_cons (selector : RowSelector) (selectors : List RowSelector) :
    flags (selector :: selectors) = selector.flags ++ flags selectors := rfl

@[simp]
theorem flags_append (first second : List RowSelector) :
    flags (first ++ second) = flags first ++ flags second :=
  List.flatMap_append

/-- Offsets of the selected rows, from a position on. -/
def offsetsFrom : Nat → List RowSelector → List Nat
  | _, [] => []
  | position, selector :: selectors =>
      if selector.skip then offsetsFrom (position + selector.rowCount) selectors
      else List.range' position selector.rowCount ++
        offsetsFrom (position + selector.rowCount) selectors

/-- Positions of the flags that are set, from a position on. -/
def setFrom (position : Nat) (flags : List Bool) : List Nat :=
  ((flags.zipIdx position).filter Prod.fst).map Prod.snd

theorem setFrom_append (position : Nat) (first second : List Bool) :
    setFrom position (first ++ second) =
      setFrom position first ++ setFrom (position + first.length) second := by
  simp [setFrom, List.zipIdx_append]

theorem setFrom_replicate_false (position rowCount : Nat) :
    setFrom position (List.replicate rowCount false) = [] := by
  rw [setFrom, List.map_eq_nil_iff, List.filter_eq_nil_iff]
  intro pair member
  obtain ⟨-, -, equal⟩ := List.mem_zipIdx member
  simp only [List.getElem_replicate] at equal
  simp [equal]

theorem setFrom_replicate_true (position rowCount : Nat) :
    setFrom position (List.replicate rowCount true) = List.range' position rowCount := by
  induction rowCount generalizing position with
  | zero => rfl
  | succ rowCount ih =>
      have rest := ih (position + 1)
      rw [setFrom] at rest
      rw [List.replicate_succ, setFrom, List.zipIdx_cons, List.filter_cons_of_pos rfl,
        List.map_cons, rest, List.range'_succ]

/-- The selected offsets are the positions of the flags that are set. -/
theorem offsetsFrom_eq (position : Nat) (selectors : List RowSelector) :
    offsetsFrom position selectors = setFrom position (flags selectors) := by
  induction selectors generalizing position with
  | nil => rfl
  | cons selector selectors ih =>
      have length : selector.flags.length = selector.rowCount := List.length_replicate
      rw [offsetsFrom, flags_cons, setFrom_append, ih, length]
      cases skip : selector.skip with
      | true => simp [RowSelector.flags, skip, setFrom_replicate_false]
      | false => simp [RowSelector.flags, skip, setFrom_replicate_true]

/-- Flags that are a function of the position. -/
theorem setFrom_map_range (total : Nat) (p : Nat → Bool) :
    setFrom 0 ((List.range total).map p) = (List.range total).filter p := by
  induction total with
  | zero => rfl
  | succ total ih =>
      rw [List.range_succ, List.map_append, setFrom_append, ih, List.filter_append]
      cases set : p total <;> simp [setFrom, set]

theorem offsets_eq_filter {selectors : List RowSelector} {total : Nat} {p : Nat → Bool}
    (same : flags selectors = (List.range total).map p) :
    offsetsFrom 0 selectors = (List.range total).filter p := by
  rw [offsetsFrom_eq, same, setFrom_map_range]

/-- A prefix of the rows, and the rest. -/
theorem range_append_range' {first total : Nat} (le : first ≤ total) :
    List.range first ++ List.range' first (total - first) = List.range total := by
  have joined := List.range'_append_1 (s := 0) (m := first) (n := total - first)
  rw [Nat.zero_add, Nat.add_sub_cancel' le] at joined
  rw [List.range_eq_range', List.range_eq_range', joined]

/-- Flags of an interval of rows. -/
theorem interval_flags {offset chunk total : Nat} (inside : offset + chunk ≤ total) :
    List.replicate offset false ++ List.replicate chunk true ++
        List.replicate (total - offset - chunk) false =
      (List.range total).map fun row => decide (offset ≤ row ∧ row < offset + chunk) := by
  apply List.ext_getElem
  · simp only [List.length_append, List.length_replicate, List.length_map, List.length_range]
    omega
  · intro row left right
    simp only [List.getElem_append, List.length_append, List.length_replicate,
      List.getElem_replicate, List.getElem_map, List.getElem_range]
    split
    · split <;> simp <;> omega
    · simp
      omega

end RowSelection

/-! ## Implementations -/

/-- An implementation of selections. -/
structure RowSelections where
  Selection : Type
  ofSelectors : List RowSelector → Selection
  iter : Selection → List RowSelector
  intersection : Selection → Selection → Selection
  /-- Runs may be merged and dropped, but not the flags they stand for. -/
  flags_ofSelectors : ∀ selectors,
    RowSelection.flags (iter (ofSelectors selectors)) = RowSelection.flags selectors
  /-- Selections over the same rows intersect row by row. -/
  flags_intersection : ∀ first second,
    (RowSelection.flags (iter first)).length = (RowSelection.flags (iter second)).length →
    RowSelection.flags (iter (intersection first second)) =
      (RowSelection.flags (iter first)).zipWith and (RowSelection.flags (iter second))

namespace RowSelections

variable (lib : RowSelections)

/-- Flags of a selection. -/
def flags (selection : lib.Selection) : List Bool :=
  RowSelection.flags (lib.iter selection)

variable {lib} {total : Nat} {p q : Nat → Bool}

theorem flags_intersection_eq {first second : lib.Selection}
    (first_eq : lib.flags first = (List.range total).map p)
    (second_eq : lib.flags second = (List.range total).map q) :
    lib.flags (lib.intersection first second) =
      (List.range total).map fun row => p row && q row := by
  have length : (lib.flags first).length = (lib.flags second).length := by
    rw [first_eq, second_eq, List.length_map, List.length_map]
  have intersected := lib.flags_intersection first second length
  rw [flags, intersected]
  change (lib.flags first).zipWith and (lib.flags second) = _
  rw [first_eq, second_eq, List.zipWith_map, List.zipWith_self]

end RowSelections

namespace RowSelection

/-- Put a run before others: nothing if it is empty, and together with the next one if both are
selected or both are skipped. -/
def push (selector : RowSelector) : List RowSelector → List RowSelector
  | [] => if selector.rowCount = 0 then [] else [selector]
  | next :: selectors =>
      if selector.rowCount = 0 then next :: selectors
      else if selector.skip = next.skip then
        { next with rowCount := selector.rowCount + next.rowCount } :: selectors
      else selector :: next :: selectors

theorem flags_push (selector : RowSelector) (selectors : List RowSelector) :
    flags (push selector selectors) = selector.flags ++ flags selectors := by
  cases selectors with
  | nil =>
      rw [push]
      split
      · next empty => simp [RowSelector.flags, empty]
      · rfl
  | cons next selectors =>
      rw [push]
      split
      · next empty => simp [RowSelector.flags, empty]
      · split
        · next same =>
            simp only [flags_cons, RowSelector.flags, same, List.replicate_add, List.append_assoc]
        · rfl

/-- The shortest runs with the same flags. -/
def merged (selectors : List RowSelector) : List RowSelector :=
  selectors.foldr push []

theorem flags_merged (selectors : List RowSelector) : flags (merged selectors) = flags selectors := by
  induction selectors with
  | nil => rfl
  | cons selector selectors ih =>
      rw [merged, List.foldr_cons, flags_push]
      exact congrArg (selector.flags ++ ·) ih

/-- Runs with given flags. -/
def ofFlags (flags : List Bool) : List RowSelector :=
  merged (flags.map fun flag => { rowCount := 1, skip := !flag })

theorem flags_ofFlags (given : List Bool) : flags (ofFlags given) = given := by
  rw [ofFlags, flags_merged]
  induction given with
  | nil => rfl
  | cons flag given ih =>
      rw [List.map_cons, flags_cons, ih]
      cases flag <;> rfl

end RowSelection

/-- Selections as lists of the shortest runs. -/
def RowSelections.shortest : RowSelections where
  Selection := List RowSelector
  ofSelectors := RowSelection.merged
  iter := id
  intersection := fun first second => RowSelection.ofFlags
    ((RowSelection.flags first).zipWith and (RowSelection.flags second))
  flags_ofSelectors := RowSelection.flags_merged
  flags_intersection := fun _ _ _ => RowSelection.flags_ofFlags _
