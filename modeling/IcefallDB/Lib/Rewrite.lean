import Mathlib.Data.List.Nodup
import Mathlib.Data.List.Perm.Basic

/-!
# Rewrites of rows

A rewrite selects rows and replaces each of them by at most one new version.  Two rewrites that were
worked out on the same rows can be laid over each other: the rows that either selects are gone, and
every version that one of them made is there.  That is what running one after the other gives
exactly if the later one spares what the earlier one did.
-/

/-- A rewrite of single rows. -/
structure Rewrite (α : Type) where
  selects : α → Bool
  /-- The new version of a selected row, unless the row is removed. -/
  image : α → Option α

namespace Rewrite

variable {ι α : Type} (first second : Rewrite α)

/-- The version that a rewrite makes of a row it selects. -/
def version (rewrite : Rewrite α) (row : α) : Option α :=
  if rewrite.selects row then rewrite.image row else none

/-- What becomes of a row. -/
def step (rewrite : Rewrite α) (row : α) : Option α :=
  if rewrite.selects row then rewrite.image row else some row

/-- What becomes of identified rows; they keep their ids. -/
def run (rewrite : Rewrite α) (rows : List (ι × α)) : List (ι × α) :=
  rows.filterMap fun row => (rewrite.step row.2).map (row.1, ·)

/-- What two rewrites of the same row leave. -/
def overlay (row : α) : List α :=
  (if first.selects row || second.selects row then [] else [row]) ++
    ((first.version row).toList ++ (second.version row).toList)

/-- A rewrite makes no version of a row that was rewritten before it, and leaves alone what the row
has become. -/
def Spares (row : α) : Prop :=
  first.selects row = true → (second.selects row = true → second.image row = none) ∧
    ∀ new, first.image row = some new → second.step new = some new

/-- The versions that a rewrite makes of identified rows. -/
def versions (rewrite : Rewrite α) (rows : List (ι × α)) : List (ι × α) :=
  rows.filterMap fun row => (rewrite.version row.2).map (row.1, ·)

variable {first second}

@[simp]
theorem run_nil (rewrite : Rewrite α) : rewrite.run ([] : List (ι × α)) = [] := rfl

theorem run_append (rewrite : Rewrite α) (left right : List (ι × α)) :
    rewrite.run (left ++ right) = rewrite.run left ++ rewrite.run right :=
  List.filterMap_append

theorem run_run_eq_flatMap (rows : List (ι × α)) :
    second.run (first.run rows) =
      rows.flatMap fun row => ((first.step row.2).bind second.step).toList.map (row.1, ·) := by
  induction rows with
  | nil => rfl
  | cons row rows ih =>
      rw [List.flatMap_cons, ← ih, run, run, List.filterMap_cons]
      cases first.step row.2 with
      | none => rfl
      | some new =>
          rw [Option.map_some, List.filterMap_cons, Option.bind_some]
          cases second.step new <;> rfl

theorem overlay_perm_comm (row : α) : (first.overlay second row).Perm (second.overlay first row) := by
  rw [overlay, overlay, Bool.or_comm]
  exact List.perm_append_comm.append_left _

/-- The overlay is what the first rewrite and then the second one leave exactly if the second one
spares the first one. -/
theorem overlay_eq_iff (row : α) :
    first.overlay second row = ((first.step row).bind second.step).toList ↔
      first.Spares second row := by
  cases first_selects : first.selects row with
  | false =>
      cases second_selects : second.selects row with
      | false => simp [overlay, version, step, Spares, first_selects, second_selects]
      | true => simp [overlay, version, step, Spares, first_selects, second_selects]
  | true =>
      cases image_eq : first.image row with
      | none =>
          cases second_selects : second.selects row with
          | false => simp [overlay, version, step, Spares, first_selects, second_selects, image_eq]
          | true =>
              cases again : second.image row with
              | none =>
                  simp [overlay, version, step, Spares, first_selects, second_selects, image_eq,
                    again]
              | some other =>
                  simp [overlay, version, step, Spares, first_selects, second_selects, image_eq,
                    again]
      | some new =>
          -- the later rewrite has to leave one version
          have remains : (([new] : List α) = (second.step new).toList) ↔
              second.step new = some new := by
            cases second.step new with
            | none => simp
            | some other => simp [eq_comm]
          cases second_selects : second.selects row with
          | false =>
              simpa [overlay, version, step, Spares, first_selects, second_selects, image_eq]
                using remains
          | true =>
              cases again : second.image row with
              | none =>
                  simpa [overlay, version, step, Spares, first_selects, second_selects, image_eq,
                    again] using remains
              | some other =>
                  have fewer : ([new, other] : List α) ≠ (second.step new).toList := by
                    intro same
                    have lengths := congrArg List.length same
                    cases found : second.step new <;> simp [found] at lengths
                  simpa [overlay, version, step, Spares, first_selects, second_selects, image_eq,
                    again] using fewer

theorem versions_eq_flatMap (rewrite : Rewrite α) (rows : List (ι × α)) :
    rewrite.versions rows = rows.flatMap fun row =>
      (rewrite.version row.2).toList.map (row.1, ·) := by
  induction rows with
  | nil => rfl
  | cons row rows ih =>
      rw [List.flatMap_cons, ← ih, versions, List.filterMap_cons]
      cases rewrite.version row.2 <;> rfl

/-- A run keeps the rows that are not selected and adds the new versions. -/
theorem run_perm (rewrite : Rewrite α) (rows : List (ι × α)) :
    (rewrite.run rows).Perm
      ((rows.filter fun row => !rewrite.selects row.2) ++ rewrite.versions rows) := by
  induction rows with
  | nil => exact .refl _
  | cons row rows ih =>
      cases selected : rewrite.selects row.2 with
      | false => simpa [run, versions, step, version, selected] using ih
      | true =>
          cases image_eq : rewrite.image row.2 with
          | none => simpa [run, versions, step, version, selected, image_eq] using ih
          | some new =>
              have moved := (ih.cons (row.1, new)).trans List.perm_middle.symm
              simpa [run, versions, step, version, selected, image_eq] using moved

end Rewrite

/-! ## Identified rows -/

namespace Identified

variable {ι α : Type}

/-- Replace identified rows by rows with the same ids. -/
def expand (f : α → List α) (rows : List (ι × α)) : List (ι × α) :=
  rows.flatMap fun row => (f row.2).map (row.1, ·)

theorem perm_toList_iff {left : List α} {right : Option α} :
    left.Perm right.toList ↔ left = right.toList := by
  constructor
  · intro perm
    cases right with
    | none => exact List.perm_nil.mp perm
    | some row => exact List.perm_singleton.mp perm
  · intro same
    exact same ▸ .refl _

theorem filter_expand_of_notMem [DecidableEq ι] (f : α → List α) {rows : List (ι × α)} {id : ι}
    (absent : id ∉ rows.map Prod.fst) : (expand f rows).filter (fun row => row.1 = id) = [] := by
  rw [List.filter_eq_nil_iff]
  intro row member found
  obtain ⟨old, old_member, member⟩ := List.mem_flatMap.mp member
  obtain ⟨new, -, rfl⟩ := List.mem_map.mp member
  exact absent (List.mem_map.mpr ⟨old, old_member, of_decide_eq_true found⟩)

/-- Rows with distinct ids are replaced alike exactly if each of them is. -/
theorem expand_perm_iff [DecidableEq ι] {f g : α → List α} {rows : List (ι × α)}
    (distinct : (rows.map Prod.fst).Nodup) :
    (expand f rows).Perm (expand g rows) ↔ ∀ row ∈ rows, (f row.2).Perm (g row.2) := by
  induction rows with
  | nil => simp [expand]
  | cons row rows ih =>
      rw [List.map_cons, List.nodup_cons] at distinct
      have cons (h : α → List α) :
          expand h (row :: rows) = (h row.2).map (row.1, ·) ++ expand h rows :=
        List.flatMap_cons
      rw [List.forall_mem_cons, ← ih distinct.2, cons, cons]
      constructor
      · intro perm
        have own (h : α → List α) :
            (((h row.2).map (row.1, ·) ++ expand h rows).filter fun other => other.1 = row.1) =
              (h row.2).map (row.1, ·) := by
          rw [List.filter_append, filter_expand_of_notMem h distinct.1, List.append_nil,
            List.filter_eq_self]
          intro other member
          obtain ⟨new, -, rfl⟩ := List.mem_map.mp member
          exact decide_eq_true rfl
        have head : (f row.2).Perm (g row.2) := by
          have same := (perm.filter fun other => other.1 = row.1).map Prod.snd
          rw [own f, own g, List.map_map, List.map_map] at same
          simpa [Function.comp_def] using same
        refine ⟨head, ?_⟩
        have heads := head.map (row.1, ·)
        exact (List.perm_append_left_iff _).mp ((heads.append_right _).symm.trans perm)
      · rintro ⟨head, tail⟩
        exact (head.map _).append tail

theorem flatMap_ite_eq_filter {β : Type} (p : β → Bool) (rows : List β) :
    (rows.flatMap fun row => if p row then [] else [row]) = rows.filter fun row => !p row := by
  induction rows with
  | nil => rfl
  | cons row rows ih =>
      rw [List.flatMap_cons, List.filter_cons, ih]
      cases p row <;> rfl

/-- Two rewrites laid over each other: the rows that neither selects, and both kinds of versions. -/
theorem expand_overlay_perm (first second : Rewrite α) (rows : List (ι × α)) :
    (expand (first.overlay second) rows).Perm
      ((rows.filter fun row => !(first.selects row.2 || second.selects row.2)) ++
        (first.versions rows ++ second.versions rows)) := by
  have split : expand (first.overlay second) rows = rows.flatMap fun row =>
      (if first.selects row.2 || second.selects row.2 then [] else [row]) ++
        ((first.version row.2).toList.map (row.1, ·) ++
          (second.version row.2).toList.map (row.1, ·)) := by
    apply List.flatMap_congr
    intro row _
    rw [Rewrite.overlay, List.map_append, List.map_append]
    split <;> rfl
  rw [split, ← flatMap_ite_eq_filter fun row : ι × α => first.selects row.2 || second.selects row.2,
    Rewrite.versions_eq_flatMap, Rewrite.versions_eq_flatMap]
  apply (List.flatMap_append_perm _ _ _).symm.trans
  exact (List.flatMap_append_perm _ _ _).symm.append_left _

/-- Rows with old ids and rows with new ids agree with other ones separately. -/
theorem perm_append_iff {bound : Nat} {old old' new new' : List (Nat × α)}
    (old_lt : ∀ row ∈ old, row.1 < bound) (old_lt' : ∀ row ∈ old', row.1 < bound)
    (new_ge : ∀ row ∈ new, bound ≤ row.1) (new_ge' : ∀ row ∈ new', bound ≤ row.1) :
    (old ++ new).Perm (old' ++ new') ↔ old.Perm old' ∧ new.Perm new' := by
  constructor
  · intro perm
    have below {left right : List (Nat × α)} (lt : ∀ row ∈ left, row.1 < bound)
        (ge : ∀ row ∈ right, bound ≤ row.1) :
        (left ++ right).filter (fun row => row.1 < bound) = left := by
      rw [List.filter_append, List.filter_eq_self.mpr, List.filter_eq_nil_iff.mpr, List.append_nil]
      · intro row member
        simpa using ge row member
      · intro row member
        simpa using lt row member
    have olds := perm.filter fun row => row.1 < bound
    rw [below old_lt new_ge, below old_lt' new_ge'] at olds
    exact ⟨olds, (List.perm_append_left_iff _).mp ((olds.append_right _).symm.trans perm)⟩
  · rintro ⟨olds, news⟩
    exact olds.append news

end Identified
