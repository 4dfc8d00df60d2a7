import Mathlib

/-!
# Skipping files

A reader looks for the rows that satisfy all conditions of a query, and skips the files that cannot
have such rows as far as it knows.  It finds the live rows for every query exactly if no file has
other rows and no file is skipped wrongly.
-/

namespace Skipping

/-! ## Bounds -/

section Bounds

variable {α : Type} [LinearOrder α]

/-- A comparison of a value with a literal. -/
inductive Comparing (α : Type)
  | equal (literal : α)
  | less (literal : α)
  | atMost (literal : α)
  | greater (literal : α)
  | atLeast (literal : α)

namespace Comparing

/-- The value compares so. -/
def holds (value : α) : Comparing α → Bool
  | equal literal => value = literal
  | less literal => value < literal
  | atMost literal => value ≤ literal
  | greater literal => literal < value
  | atLeast literal => literal ≤ value

/-- Some value between two bounds, as far as they are known, compares so. -/
def mayHold (lower upper : Option α) : Comparing α → Bool
  | equal literal => lower.all (· ≤ literal) && upper.all (literal ≤ ·)
  | less literal => lower.all (· < literal)
  | atMost literal => lower.all (· ≤ literal)
  | greater literal => upper.all (literal < ·)
  | atLeast literal => upper.all (literal ≤ ·)

/-- A value is between two bounds, as far as they are known. -/
def Within (lower upper : Option α) (value : α) : Prop :=
  (∀ bound ∈ lower, bound ≤ value) ∧ ∀ bound ∈ upper, value ≤ bound

theorem mayHold_of_holds {lower upper : Option α} {value : α} (within : Within lower upper value)
    {comparing : Comparing α} (holds : comparing.holds value = true) :
    comparing.mayHold lower upper = true := by
  obtain ⟨above, below⟩ := within
  cases comparing with
  | equal literal =>
      obtain rfl := of_decide_eq_true holds
      rw [mayHold, Bool.and_eq_true, Option.all_eq_true, Option.all_eq_true]
      exact ⟨fun bound known => decide_eq_true (above bound known),
        fun bound known => decide_eq_true (below bound known)⟩
  | less literal =>
      rw [mayHold, Option.all_eq_true]
      exact fun bound known =>
        decide_eq_true (lt_of_le_of_lt (above bound known) (of_decide_eq_true holds))
  | atMost literal =>
      rw [mayHold, Option.all_eq_true]
      exact fun bound known =>
        decide_eq_true (le_trans (above bound known) (of_decide_eq_true holds))
  | greater literal =>
      rw [mayHold, Option.all_eq_true]
      exact fun bound known =>
        decide_eq_true (lt_of_lt_of_le (of_decide_eq_true holds) (below bound known))
  | atLeast literal =>
      rw [mayHold, Option.all_eq_true]
      exact fun bound known =>
        decide_eq_true (le_trans (of_decide_eq_true holds) (below bound known))

/-- No comparison that a value satisfies is excluded exactly if the value is between the bounds. -/
theorem forall_mayHold_iff {lower upper : Option α} {value : α} :
    (∀ comparing : Comparing α, comparing.holds value = true →
      comparing.mayHold lower upper = true) ↔ Within lower upper value := by
  constructor
  · intro never
    have own := never (.equal value) (decide_eq_true rfl)
    rw [mayHold, Bool.and_eq_true, Option.all_eq_true, Option.all_eq_true] at own
    exact ⟨fun bound known => of_decide_eq_true (own.1 bound known),
      fun bound known => of_decide_eq_true (own.2 bound known)⟩
  · intro within comparing holds
    exact mayHold_of_holds within holds

end Comparing

end Bounds

/-! ## Reading -/

variable {File Row Query : Type} (rows : File → List Row) (keeps : Query → Row → Bool)
  (mayContain : Query → File → Bool)

/-- The rows that satisfy all conditions, of the files that may contain some. -/
def read (files : List File) (query : List Query) : List Row :=
  ((files.filter fun file => query.all (mayContain · file)).flatMap rows).filter
    fun row => query.all (keeps · row)

variable {rows keeps mayContain}

theorem read_cons (file : File) (files : List File) (query : List Query) :
    read rows keeps mayContain (file :: files) query =
      (if query.all (mayContain · file) then (rows file).filter fun row => query.all (keeps · row)
        else []) ++ read rows keeps mayContain files query := by
  rw [read, List.filter_cons]
  split
  · rw [List.flatMap_cons, List.filter_append, read]
  · rw [List.nil_append, read]

/-- If no file is skipped wrongly, every row that satisfies the conditions is read. -/
theorem read_eq_filter {files : List File} {query : List Query}
    (sound : ∀ file ∈ files, ∀ condition ∈ query, ∀ row ∈ rows file,
      keeps condition row = true → mayContain condition file = true) :
    read rows keeps mayContain files query =
      (files.flatMap rows).filter fun row => query.all (keeps · row) := by
  induction files with
  | nil => rfl
  | cons file files ih =>
      rw [List.forall_mem_cons] at sound
      rw [read_cons, List.flatMap_cons, List.filter_append, ih sound.2]
      congr 1
      split
      · rfl
      · next skipped =>
          symm
          rw [List.filter_eq_nil_iff]
          intro row member kept
          apply skipped
          rw [List.all_eq_true] at kept ⊢
          exact fun condition asked => sound.1 condition asked row member (kept condition asked)

/-- Less is read if a file with a row that satisfies the condition is skipped. -/
theorem length_read_lt {files : List File} {file : File} {condition : Query} {row : Row}
    (member : file ∈ files) (stored : row ∈ rows file) (kept : keeps condition row = true)
    (skipped : mayContain condition file = false) :
    (read rows keeps mayContain files [condition]).length <
      ((files.flatMap rows).filter fun row => [condition].all (keeps · row)).length := by
  have at_most : ∀ others : List File, (read rows keeps mayContain others [condition]).length ≤
      ((others.flatMap rows).filter fun row => [condition].all (keeps · row)).length := by
    intro others
    exact ((List.filter_sublist.flatMap rows).filter _).length_le
  obtain ⟨before, after, rfl⟩ := List.append_of_mem member
  have positive : 0 < ((rows file).filter fun row => [condition].all (keeps · row)).length := by
    apply List.length_pos_of_mem (a := row)
    rw [List.mem_filter, List.all_cons, List.all_nil, Bool.and_true]
    exact ⟨stored, kept⟩
  have own : [condition].all (mayContain · file) = false := by
    rw [List.all_cons, skipped, Bool.false_and]
  have split_read : read rows keeps mayContain (before ++ file :: after) [condition] =
      read rows keeps mayContain before [condition] ++
        read rows keeps mayContain after [condition] := by
    simp only [read, List.filter_append, List.filter_cons, own, List.flatMap_append]
    rfl
  rw [split_read, List.flatMap_append, List.flatMap_cons, List.filter_append, List.filter_append,
    List.length_append, List.length_append, List.length_append]
  have first := at_most before
  have rest := at_most after
  omega

/-- Parts of lists that have as many elements in all are the lists. -/
theorem eq_of_length_flatMap {live : File → List Row} {files : List File}
    (parts : ∀ file ∈ files, (live file).Sublist (rows file))
    (same : (files.flatMap live).length = (files.flatMap rows).length) :
    ∀ file ∈ files, live file = rows file := by
  induction files with
  | nil => exact nofun
  | cons file files ih =>
      rw [List.forall_mem_cons] at parts ⊢
      rw [List.flatMap_cons, List.flatMap_cons, List.length_append, List.length_append] at same
      have first := parts.1.length_le
      have rest := (List.Sublist.flatMap_right files parts.2).length_le
      exact ⟨parts.1.eq_of_length (by omega), ih parts.2 (by omega)⟩

/-- Every query reads the live rows that satisfy its conditions exactly if all rows of the files are
live and no file is skipped that has rows which satisfy a condition. -/
theorem forall_perm_read_iff {live : File → List Row} {files : List File}
    (parts : ∀ file ∈ files, (live file).Sublist (rows file)) :
    (∀ query, (read rows keeps mayContain files query).Perm
      ((files.flatMap live).filter fun row => query.all (keeps · row))) ↔
      ∀ file ∈ files, live file = rows file ∧ ∀ condition, ∀ row ∈ rows file,
        keeps condition row = true → mayContain condition file = true := by
  constructor
  · intro denotes
    have all : (read rows keeps mayContain files []).Perm (files.flatMap live) := by
      have none_asked := denotes []
      simp only [List.all_nil, List.filter_true] at none_asked
      exact none_asked
    have everything : read rows keeps mayContain files [] = files.flatMap rows := by
      rw [read_eq_filter fun _ _ condition asked => absurd asked List.not_mem_nil]
      simp only [List.all_nil, List.filter_true]
    rw [everything] at all
    have whole := eq_of_length_flatMap parts all.length_eq.symm
    have same : files.flatMap live = files.flatMap rows := List.flatMap_congr whole
    refine fun file member => ⟨whole file member, fun condition row stored kept => ?_⟩
    by_contra skipped
    have fewer : (read rows keeps mayContain files [condition]).length < _ :=
      length_read_lt member stored kept (Bool.eq_false_iff.mpr skipped)
    rw [← same, (denotes [condition]).length_eq] at fewer
    exact Nat.lt_irrefl _ fewer
  · intro sound query
    rw [List.flatMap_congr fun file member => (sound file member).1, read_eq_filter]
    exact fun file member condition _ => (sound file member).2 condition

end Skipping
