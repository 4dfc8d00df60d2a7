import Mathlib.Algebra.BigOperators.Group.List.Basic
import Mathlib.Data.List.Basic
import Mathlib.Tactic.Linarith

/-!
# Limits

A source that is read in parts and given a limit may stop each part after that many of its own rows.
A limit above a filter leaves as many matching rows as it asks for; below a filter it does so only
for some sources.
-/

namespace Limits

variable {α : Type} {p : α → Bool} {k stop : Nat}

/-- The rows of a source that stops at its limit. -/
def upTo (limit : Option Nat) (rows : List α) : List α :=
  match limit with
  | none => rows
  | some k => rows.take k

@[simp]
theorem upTo_none (rows : List α) : upTo none rows = rows := rfl

@[simp]
theorem upTo_some (k : Nat) (rows : List α) : upTo (some k) rows = rows.take k := rfl

theorem upTo_sublist (limit : Option Nat) (rows : List α) : (upTo limit rows).Sublist rows := by
  cases limit with
  | none => exact List.Sublist.refl rows
  | some k => exact List.take_sublist k rows

theorem upTo_map {β : Type} (limit : Option Nat) (f : α → β) (rows : List α) :
    upTo limit (rows.map f) = (upTo limit rows).map f := by
  cases limit with
  | none => rfl
  | some k => exact List.map_take.symm

/-- Parts that stop at the limit leave enough rows. -/
theorem min_length_le_length_upTo (k : Nat) (parts : List (List α)) :
    min k parts.flatten.length ≤ (parts.flatMap (upTo (some k))).length := by
  induction parts with
  | nil => simp
  | cons part parts ih =>
      rw [List.flatten_cons, List.flatMap_cons, List.length_append, List.length_append]
      have taken : (upTo (some k) part).length = min k part.length := List.length_take
      omega

/-- Parts that stop before they are filtered leave enough rows for a limit. -/
def Enough (p : α → Bool) (k stop : Nat) (parts : List (List α)) : Prop :=
  (∀ part ∈ parts, ∀ row ∈ part.drop stop, p row = false) ∨
    k ≤ (parts.flatMap (upTo (some stop))).countP p

/-- No matching row is lost exactly if no part has one after the stop. -/
theorem countP_flatten_le_iff (parts : List (List α)) :
    parts.flatten.countP p ≤ (parts.flatMap (upTo (some stop))).countP p ↔
      ∀ part ∈ parts, ∀ row ∈ part.drop stop, p row = false := by
  have fewer : ∀ rest : List (List α),
      (rest.flatMap (upTo (some stop))).countP p ≤ rest.flatten.countP p := by
    intro rest
    induction rest with
    | nil => rfl
    | cons part rest ih =>
        rw [List.flatten_cons, List.flatMap_cons, List.countP_append, List.countP_append]
        have part_le := (upTo_sublist (some stop) part).countP_le (p := p)
        omega
  induction parts with
  | nil => simp
  | cons part parts ih =>
      have split : part.countP p = (upTo (some stop) part).countP p + (part.drop stop).countP p := by
        rw [upTo_some, ← List.countP_append, List.take_append_drop]
      have none_iff : (part.drop stop).countP p = 0 ↔ ∀ row ∈ part.drop stop, p row = false := by
        simp [List.countP_eq_zero]
      have rest_le := fewer parts
      rw [List.forall_mem_cons, List.flatten_cons, List.flatMap_cons, List.countP_append,
        List.countP_append]
      constructor
      · intro kept
        exact ⟨none_iff.mp (by omega), ih.mp (by omega)⟩
      · intro ⟨head, tail⟩
        have head_none := none_iff.mpr head
        have tail_kept := ih.mpr tail
        omega

/-- Stopping below a filter leaves enough rows exactly in these cases. -/
theorem min_countP_le_iff (parts : List (List α)) :
    min k (parts.flatten.countP p) ≤ (parts.flatMap (upTo (some stop))).countP p ↔
      Enough p k stop parts := by
  rw [Enough, ← countP_flatten_le_iff, min_le_iff, or_comm]

end Limits
