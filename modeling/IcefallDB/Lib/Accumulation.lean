import Mathlib.Algebra.BigOperators.Group.List.Lemmas
import Mathlib.Algebra.Group.Torsion
import Mathlib.Data.List.Perm.Subperm

/-!
# Accumulating with an operation that can fail

Elements are taken into a total one by one.  Where that fails the total is dropped, and the next
element starts a new one.  A total can then stand for the last elements only; in every order it stands
for all elements exactly if no part of them fails.
-/

namespace Accumulation

variable {α : Type}

/-- Take an element into a total that may be missing. -/
def takeIn (combine : α → α → Option α) : Option α → α → Option α
  | none, element => some element
  | some total, element => combine total element

/-- Take in the elements of a list one by one. -/
def accumulate (combine : α → α → Option α) (list : List α) : Option α :=
  list.foldl (takeIn combine) none

/-- All nonempty fronts of a list fit. -/
def FitsThroughout (Fits : List α → Prop) (list : List α) : Prop :=
  ∀ front, front <+: list → front ≠ [] → Fits front

/-- The list consists of runs that stop fitting with their last element. -/
inductive LeavesNothing (Fits : List α → Prop) : List α → Prop
  | nil : LeavesNothing Fits []
  | run {before front : List α} {last : α} (earlier : LeavesNothing Fits before)
      (some_front : front ≠ []) (fits : FitsThroughout Fits front)
      (breaks : ¬ Fits (front ++ [last])) : LeavesNothing Fits (before ++ (front ++ [last]))

/-- Combining the total of a list that fits with an element gives the total of both, or fails if they
do not fit. -/
structure Sums (combine : α → α → Option α) (total : List α → α) (Fits : List α → Prop) :
    Prop where
  total_singleton : ∀ element, total [element] = element
  fits_singleton : ∀ element, Fits [element]
  combine_of_fits : ∀ {list element}, list ≠ [] → Fits list → Fits (list ++ [element]) →
    combine (total list) element = some (total (list ++ [element]))
  combine_of_breaks : ∀ {list element}, list ≠ [] → Fits list → ¬ Fits (list ++ [element]) →
    combine (total list) element = none

section

variable {Fits : List α → Prop} {list front : List α} {element : α}

theorem FitsThroughout.fits (through : FitsThroughout Fits list) (some_element : list ≠ []) :
    Fits list :=
  through list List.prefix_rfl some_element

theorem FitsThroughout.of_prefix (through : FitsThroughout Fits list) (starts : front <+: list) :
    FitsThroughout Fits front :=
  fun first initial => through first (initial.trans starts)

theorem fitsThroughout_append_singleton :
    FitsThroughout Fits (list ++ [element]) ↔
      FitsThroughout Fits list ∧ Fits (list ++ [element]) := by
  constructor
  · intro through
    constructor
    · exact through.of_prefix (List.prefix_append _ _)
    · exact through.fits (List.concat_ne_nil _ _)
  · rintro ⟨through, fits⟩ front starts some_front
    rcases List.prefix_concat_iff.mp starts with rfl | inner
    · exact fits
    · exact through front inner some_front

end

variable {combine : α → α → Option α}

theorem accumulate_append (left right : List α) :
    accumulate combine (left ++ right) = right.foldl (takeIn combine) (accumulate combine left) :=
  List.foldl_append

theorem accumulate_append_of_none {left : List α} (nothing : accumulate combine left = none)
    (right : List α) : accumulate combine (left ++ right) = accumulate combine right := by
  rw [accumulate_append, nothing]
  rfl

theorem accumulate_append_singleton (list : List α) (element : α) :
    accumulate combine (list ++ [element]) = takeIn combine (accumulate combine list) element :=
  accumulate_append list [element]

namespace Sums

variable {total : List α → α} {Fits : List α → Prop} (sums : Sums combine total Fits)

include sums

theorem fitsThroughout_singleton (element : α) : FitsThroughout Fits [element] := by
  rw [← List.nil_append [element], fitsThroughout_append_singleton]
  constructor
  · intro front starts some_front
    exact absurd (List.prefix_nil.mp starts) some_front
  · exact sums.fits_singleton element

/-- While everything fits, the total is that of all elements. -/
theorem accumulate_of_fitsThroughout {list : List α} (through : FitsThroughout Fits list)
    (some_element : list ≠ []) : accumulate combine list = some (total list) := by
  induction list using List.reverseRecOn with
  | nil => exact absurd rfl some_element
  | append_singleton list element ih =>
      obtain ⟨earlier, fits⟩ := fitsThroughout_append_singleton.mp through
      rw [accumulate_append_singleton]
      by_cases empty : list = []
      · rw [empty, List.nil_append, sums.total_singleton]
        rfl
      · rw [ih earlier empty]
        exact sums.combine_of_fits empty (earlier.fits empty) fits

/-- A list that consists of breaking runs has no total. -/
theorem accumulate_of_leavesNothing {list : List α} (leaves : LeavesNothing Fits list) :
    accumulate combine list = none := by
  induction leaves with
  | nil => rfl
  | run earlier some_front fits breaks ih =>
      rw [accumulate_append_of_none ih, accumulate_append_singleton,
        sums.accumulate_of_fitsThroughout fits some_front]
      exact sums.combine_of_breaks some_front (fits.fits some_front) breaks

/-- A list consists of breaking runs, or its total is that of the elements after such runs. -/
theorem leavesNothing_or_eq_append (list : List α) : LeavesNothing Fits list ∨
    ∃ before last, list = before ++ last ∧ LeavesNothing Fits before ∧ last ≠ [] ∧
      FitsThroughout Fits last := by
  induction list using List.reverseRecOn with
  | nil => exact .inl .nil
  | append_singleton list element ih =>
      rcases ih with leaves | ⟨before, last, rfl, leaves, some_last, fits⟩
      · right
        exact ⟨list, [element], rfl, leaves, List.cons_ne_nil _ _,
          sums.fitsThroughout_singleton element⟩
      · by_cases fitting : Fits (last ++ [element])
        · right
          refine ⟨before, last ++ [element], List.append_assoc _ _ _, leaves,
            List.concat_ne_nil _ _, ?_⟩
          exact fitsThroughout_append_singleton.mpr ⟨fits, fitting⟩
        · left
          rw [List.append_assoc]
          exact .run leaves some_last fits fitting

theorem accumulate_eq_none_iff {list : List α} :
    accumulate combine list = none ↔ LeavesNothing Fits list := by
  constructor
  · intro nothing
    rcases sums.leavesNothing_or_eq_append list with leaves | ⟨before, last, rfl, leaves, some_last, fits⟩
    · exact leaves
    · rw [accumulate_append_of_none (sums.accumulate_of_leavesNothing leaves),
        sums.accumulate_of_fitsThroughout fits some_last] at nothing
      cases nothing
  · exact sums.accumulate_of_leavesNothing

/-- A total is that of the last elements. -/
theorem exists_of_accumulate_eq_some {list : List α} {result : α}
    (found : accumulate combine list = some result) :
    ∃ before last, list = before ++ last ∧ LeavesNothing Fits before ∧ last ≠ [] ∧
      FitsThroughout Fits last ∧ result = total last := by
  rcases sums.leavesNothing_or_eq_append list with leaves | ⟨before, last, rfl, leaves, some_last, fits⟩
  · rw [sums.accumulate_of_leavesNothing leaves] at found
    cases found
  · rw [accumulate_append_of_none (sums.accumulate_of_leavesNothing leaves),
      sums.accumulate_of_fitsThroughout fits some_last] at found
    exact ⟨before, last, rfl, leaves, some_last, fits, (Option.some.inj found).symm⟩

end Sums

/-! ## Orders -/

section

variable {Fits : List α → Prop}

/-- All orders of a list fit throughout exactly if all parts of it fit. -/
theorem forall_fitsThroughout_iff
    (invariant : ∀ left right : List α, left.Perm right → (Fits left ↔ Fits right))
    (list : List α) : (∀ order : List α, order.Perm list → FitsThroughout Fits order) ↔
      ∀ part : List α, part.Subperm list → part ≠ [] → Fits part := by
  constructor
  · rintro through part ⟨other, perm, inner⟩ some_part
    obtain ⟨rest, split⟩ := inner.exists_perm_append
    rw [← invariant other part perm]
    have whole := through (other ++ rest) split.symm
    apply whole other (List.prefix_append _ _)
    rintro rfl
    exact some_part perm.nil_eq.symm
  · intro fits order perm front starts some_front
    exact fits front (starts.sublist.subperm.trans perm.subperm) some_front

/-- A list that does not fit throughout starts with a run that breaks. -/
theorem exists_break {list : List α} (broken : ¬ FitsThroughout Fits list) :
    ∃ front last rest, list = front ++ [last] ++ rest ∧ FitsThroughout Fits front ∧
      ¬ Fits (front ++ [last]) := by
  induction list using List.reverseRecOn with
  | nil =>
      apply absurd _ broken
      intro front starts some_front
      exact absurd (List.prefix_nil.mp starts) some_front
  | append_singleton list element ih =>
      by_cases earlier : FitsThroughout Fits list
      · refine ⟨list, element, [], (List.append_nil _).symm, earlier, ?_⟩
        intro fits
        exact broken (fitsThroughout_append_singleton.mpr ⟨earlier, fits⟩)
      · obtain ⟨front, last, rest, rfl, through, breaks⟩ := ih earlier
        exact ⟨front, last, rest ++ [element], List.append_assoc _ _ _, through, breaks⟩

end

/-! ## Exact totals -/

section

variable {G : Type} [AddCommGroup G]

/-- In every order there is a total, and its value is the sum of the values. -/
def Exact (combine : α → α → Option α) (value : α → G) (list : List α) : Prop :=
  ∀ order : List α, order.Perm list →
    ∃ result, accumulate combine order = some result ∧ value result = (list.map value).sum

variable {value : α → G} {total : List α → α} {Fits : List α → Prop} {list : List α}

theorem Exact.perm {other : List α} (exact : Exact combine value list) (perm : other.Perm list) :
    Exact combine value other := by
  intro order same
  rw [(perm.map value).sum_eq]
  exact exact order (same.trans perm)

/-- Without an element whose value is not the sum of all, the totals of the others are exact. -/
theorem Sums.exact_of_append_singleton (sums : Sums combine total Fits) {element : α}
    (value_total : ∀ part : List α, part.Subperm (list ++ [element]) → part ≠ [] → Fits part →
      value (total part) = (part.map value).sum)
    (exact : Exact combine value (list ++ [element]))
    (differs : value element ≠ ((list ++ [element]).map value).sum) :
    Exact combine value list := by
  intro order perm
  obtain ⟨result, found, value_eq⟩ := exact (order ++ [element]) (perm.append_right _)
  rw [accumulate_append_singleton] at found
  cases before : accumulate combine order with
  | none =>
      rw [before] at found
      obtain rfl := Option.some.inj found
      exact absurd value_eq differs
  | some earlier =>
      refine ⟨earlier, rfl, ?_⟩
      obtain ⟨front, last, rfl, -, some_last, fits, rfl⟩ := sums.exists_of_accumulate_eq_some before
      have inner : (last ++ [element]).Subperm (list ++ [element]) :=
        ((List.sublist_append_right front last).subperm.trans perm.subperm).append
          (List.Subperm.refl _)
      rw [before, takeIn] at found
      by_cases fitting : Fits (last ++ [element])
      · rw [sums.combine_of_fits some_last (fits.fits some_last) fitting] at found
        obtain rfl := Option.some.inj found
        rw [value_total _ inner (List.concat_ne_nil _ _) fitting, List.map_append, List.sum_append,
          List.map_append, List.sum_append, add_left_inj] at value_eq
        rw [← value_eq]
        exact value_total last ((List.sublist_append_left last _).subperm.trans inner) some_last
          (fits.fits some_last)
      · rw [sums.combine_of_breaks some_last (fits.fits some_last) fitting] at found
        cases found

theorem sum_map_eq_nsmul {common : G} (same : ∀ element ∈ list, value element = common) :
    (list.map value).sum = list.length • common := by
  rw [List.map_congr_left same, List.map_const', List.sum_replicate]

variable (value) in
/-- If the totals in all orders are exact, then no order breaks. -/
theorem Sums.fitsThroughout_of_exact [IsAddTorsionFree G] (sums : Sums combine total Fits)
    (value_total : ∀ part : List α, part.Subperm list → part ≠ [] → Fits part →
      value (total part) = (part.map value).sum)
    (nonzero : ∀ part : List α, part.Subperm list → ¬ Fits part → part ≠ [] →
      (part.map value).sum ≠ 0)
    (exact : Exact combine value list) :
    ∀ order : List α, order.Perm list → FitsThroughout Fits order := by
  induction size : list.length generalizing list with
  | zero =>
      intro order perm front starts some_front
      obtain rfl := List.length_eq_zero_iff.mp size
      obtain rfl := perm.eq_nil
      exact absurd (List.prefix_nil.mp starts) some_front
  | succ count ih =>
      -- Each element after a run that breaks has the value of the whole.
      have after : ∀ front rest : List α, (front ++ rest).Perm list → front ≠ [] → ¬ Fits front →
          ∀ element ∈ rest, value element = (list.map value).sum := by
        intro front rest perm some_front breaks element member
        by_contra differs
        obtain ⟨left, right, rfl⟩ := List.append_of_mem member
        have moved : (front ++ (left ++ right) ++ [element]).Perm list := by
          apply List.Perm.trans _ perm
          rw [List.append_assoc]
          apply List.Perm.append_left
          exact (List.perm_append_singleton _ _).trans List.perm_middle.symm
        have part_le : ∀ part : List α, part.Subperm (front ++ (left ++ right)) →
            part.Subperm list := fun part inner =>
          inner.trans ((List.sublist_append_left _ [element]).subperm.trans moved.subperm)
        rw [← (moved.map value).sum_eq] at differs
        have rest_exact := sums.exact_of_append_singleton
          (fun part inner => value_total part (inner.trans moved.subperm)) (exact.perm moved) differs
        have length_eq : (front ++ (left ++ right)).length = count := by
          have lengths := moved.length_eq
          rw [List.length_append, List.length_singleton, size] at lengths
          omega
        have through := ih (fun part inner => value_total part (part_le part inner))
          (fun part inner => nonzero part (part_le part inner)) rest_exact length_eq _ (.refl _)
        exact breaks (through front (List.prefix_append _ _) some_front)
      intro order perm
      by_contra broken
      obtain ⟨front, last, rest, rfl, through, breaks⟩ := exists_break broken
      have some_front : front ≠ [] := by
        rintro rfl
        exact breaks (sums.fits_singleton last)
      have nothing : accumulate combine (front ++ [last]) = none :=
        sums.accumulate_of_leavesNothing (.run .nil some_front through breaks)
      have some_run : front ++ [last] ≠ [] := List.concat_ne_nil _ _
      generalize front ++ [last] = run at perm breaks nothing some_run
      have run_sum := nonzero run ((List.sublist_append_left run rest).subperm.trans perm.subperm)
        breaks some_run
      have rest_sum := sum_map_eq_nsmul (after run rest perm some_run breaks)
      have whole := (perm.map value).sum_eq
      rw [List.map_append, List.sum_append] at whole
      obtain ⟨result, found, result_eq⟩ := exact (run ++ rest) perm
      rw [accumulate_append_of_none nothing] at found
      have some_rest : rest ≠ [] := by
        rintro rfl
        cases found
      by_cases rest_through : FitsThroughout Fits rest
      · -- The rest has the sum of the whole, so the run has none.
        have inner := (List.sublist_append_right run rest).subperm.trans perm.subperm
        rw [sums.accumulate_of_fitsThroughout rest_through some_rest] at found
        rw [← Option.some.inj found,
          value_total rest inner some_rest (rest_through.fits some_rest), ← whole] at result_eq
        exact run_sum (right_eq_add.mp result_eq)
      · -- The rest breaks as well, so that all elements have the value of the whole: it is zero.
        obtain ⟨front', last', rest', rfl, -, breaks'⟩ := exists_break rest_through
        have turned : (front' ++ [last'] ++ (rest' ++ run)).Perm list := by
          rw [← List.append_assoc]
          exact List.perm_append_comm.trans perm
        have run_eq := sum_map_eq_nsmul fun element member =>
          after _ _ turned (List.concat_ne_nil _ _) breaks' element
            (List.mem_append_right rest' member)
        rw [run_eq, rest_sum, ← add_nsmul] at whole
        have total_zero : (list.map value).sum = 0 := by
          have run_pos := List.length_pos_of_ne_nil some_run
          have rest_pos := List.length_pos_of_ne_nil some_rest
          obtain ⟨others, count_eq⟩ : ∃ others, run.length +
              (front' ++ [last'] ++ rest').length = (others + 1) + 1 :=
            ⟨run.length + (front' ++ [last'] ++ rest').length - 2, by omega⟩
          rw [count_eq, succ_nsmul, add_eq_right] at whole
          exact (nsmul_eq_zero_iff_right (Nat.succ_ne_zero others)).mp whole
        rw [run_eq, total_zero, nsmul_zero] at run_sum
        exact run_sum rfl

end

end Accumulation
