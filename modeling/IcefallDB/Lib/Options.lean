import Mathlib.Data.List.Forall2

/-!
# Lists of optional results

Mapping a partial function over a list succeeds when it succeeds on every element, and then gives
what filtering with it gives.  The results stand beside the elements.
-/

namespace Option

variable {α β : Type} {condition : Bool} {first second : Option α}

/-- The second result is the first one if a condition holds, and otherwise there is none. -/
def GuardedBy (condition : Bool) (first second : Option α) : Prop :=
  ∀ value, first = some value → second = if condition then some value else none

theorem GuardedBy.refl (result : Option α) : GuardedBy true result result :=
  fun _ found => found

theorem GuardedBy.of_true (holds : condition = true) (same : second = first) :
    GuardedBy condition first second := by
  rw [holds, same]
  exact .refl first

theorem GuardedBy.of_false (fails : condition = false) (nothing : second = none) :
    GuardedBy condition first second := by
  intro _ _
  rw [fails, nothing]
  rfl

theorem GuardedBy.bind (guarded : GuardedBy condition first second) (next : α → Option β) :
    GuardedBy condition (first.bind next) (second.bind next) := by
  intro result found
  obtain ⟨value, value_eq, rest⟩ := Option.bind_eq_some_iff.mp found
  rw [guarded value value_eq]
  cases condition with
  | false => rfl
  | true => exact rest

theorem GuardedBy.bind_right {earlier : Option β} {next other : β → Option α}
    (guarded : ∀ value, GuardedBy condition (next value) (other value)) :
    GuardedBy condition (earlier.bind next) (earlier.bind other) := by
  cases earlier with
  | none => exact fun _ found => nomatch found
  | some value => exact guarded value

theorem GuardedBy.map (guarded : GuardedBy condition first second) (f : α → β) :
    GuardedBy condition (first.map f) (second.map f) := by
  rw [Option.map_eq_bind, Option.map_eq_bind]
  exact guarded.bind _

theorem GuardedBy.ite_left (guarded : GuardedBy condition first second) (test : Prop)
    [Decidable test] :
    GuardedBy condition (if test then first else none) (if test then second else none) := by
  intro value found
  obtain ⟨holds, found⟩ := Option.ite_none_right_eq_some.mp found
  rw [if_pos holds]
  exact guarded value found

theorem GuardedBy.ite_right (guarded : GuardedBy condition first second) (test : Prop)
    [Decidable test] :
    GuardedBy condition (if test then none else first) (if test then none else second) := by
  intro value found
  obtain ⟨fails, found⟩ := Option.ite_none_left_eq_some.mp found
  rw [if_neg fails]
  exact guarded value found

end Option

namespace List

variable {α β : Type} {f : α → Option β} {list : List α}

theorem isSome_mapM : (list.mapM f).isSome ↔ ∀ element ∈ list, (f element).isSome := by
  induction list with
  | nil => simp
  | cons element list ih =>
      rw [List.mapM_cons, List.forall_mem_cons, ← ih]
      cases f element with
      | none => simp
      | some value => cases list.mapM f <;> simp

theorem mapM_eq_some_filterMap (all : ∀ element ∈ list, (f element).isSome) :
    list.mapM f = some (list.filterMap f) := by
  induction list with
  | nil => rfl
  | cons element list ih =>
      rw [List.forall_mem_cons] at all
      obtain ⟨value, value_eq⟩ := Option.isSome_iff_exists.mp all.1
      rw [List.mapM_cons, List.filterMap_cons, value_eq, ih all.2]
      rfl

/-- Mapping a function that gives the same results, but none for some elements. -/
theorem mapM_guardedBy {other : α → Option β} {good : α → Bool}
    (each : ∀ element ∈ list, Option.GuardedBy (good element) (f element) (other element)) :
    Option.GuardedBy (list.all good) (list.mapM f) (list.mapM other) := by
  induction list with
  | nil => exact fun _ found => found
  | cons element list ih =>
      intro results found
      rw [List.forall_mem_cons] at each
      rw [List.mapM_cons] at found
      obtain ⟨first, first_eq, rest⟩ := Option.bind_eq_some_iff.mp found
      obtain ⟨later, later_eq, whole⟩ := Option.bind_eq_some_iff.mp rest
      obtain rfl := Option.some.inj whole
      rw [List.mapM_cons, each.1 first first_eq, ih each.2 later later_eq, List.all_cons]
      cases good element with
      | false => rfl
      | true => cases list.all good <;> rfl

/-- An order of the results comes from an order of the elements. -/
theorem exists_perm_filterMap {order : List β} (perm : order.Perm (list.filterMap f)) :
    ∃ other : List α, other.Perm list ∧ other.filterMap f = order := by
  induction list generalizing order with
  | nil => exact ⟨[], .refl _, perm.eq_nil.symm⟩
  | cons element list ih =>
      cases result : f element with
      | none =>
          rw [filterMap_cons_none result] at perm
          obtain ⟨other, other_perm, rfl⟩ := ih perm
          exact ⟨element :: other, other_perm.cons element, filterMap_cons_none result⟩
      | some value =>
          rw [filterMap_cons_some result] at perm
          obtain ⟨left, right, rfl⟩ := append_of_mem (perm.mem_iff.mpr mem_cons_self)
          obtain ⟨other, other_perm, whole⟩ :=
            ih (perm_cons value |>.mp (perm_middle.symm.trans perm))
          obtain ⟨first, last, rfl, rfl, rfl⟩ := filterMap_eq_append_iff.mp whole
          refine ⟨first ++ element :: last, perm_middle.trans (other_perm.cons element), ?_⟩
          rw [filterMap_append, filterMap_cons_some result]

section

variable {relation : α → β → Prop} {left : List α} {right : List β}

theorem Forall₂.exists_of_mem_left (pairs : Forall₂ relation left right) {first : α}
    (member : first ∈ left) : ∃ second ∈ right, relation first second := by
  induction pairs with
  | nil => cases member
  | cons related _ ih =>
      rcases mem_cons.mp member with rfl | later
      · exact ⟨_, mem_cons_self, related⟩
      · obtain ⟨second, second_mem, found⟩ := ih later
        exact ⟨second, mem_cons_of_mem _ second_mem, found⟩

theorem Forall₂.exists_of_mem_right (pairs : Forall₂ relation left right) {second : β}
    (member : second ∈ right) : ∃ first ∈ left, relation first second :=
  pairs.flip.exists_of_mem_left member

/-- Keeping elements on the left keeps those beside them on the right. -/
theorem Forall₂.filter_left (pairs : Forall₂ relation left right) (keep : α → Bool) :
    Forall₂ relation (left.filter keep)
      (((left.zip right).filter fun pair => keep pair.1).map Prod.snd) := by
  induction pairs with
  | nil => exact .nil
  | @cons first second _ _ related _ ih =>
      rw [zip_cons_cons]
      by_cases kept : keep first = true
      · rw [filter_cons_of_pos kept, filter_cons, if_pos kept, map_cons]
        exact .cons related ih
      · rw [filter_cons_of_neg kept, filter_cons, if_neg kept]
        exact ih

/-- Where one relation holds, another one holds exactly if a property of the left elements does. -/
theorem Forall₂.iff_forall {other : α → β → Prop} {property : α → Prop}
    (pairs : Forall₂ relation left right)
    (each : ∀ first second, relation first second → (other first second ↔ property first)) :
    Forall₂ other left right ↔ ∀ first ∈ left, property first := by
  induction pairs with
  | nil => simp
  | cons related _ ih => rw [forall₂_cons, forall_mem_cons, each _ _ related, ih]

/-- Two lists that are in step with a third one are in step with each other. -/
theorem Forall₂.through {γ : Type} {third : List γ} {other : α → γ → Prop} {both : β → γ → Prop}
    (pairs : Forall₂ relation left right) (others : Forall₂ other left third)
    (combine : ∀ first second last, relation first second → other first last → both second last) :
    Forall₂ both right third := by
  induction pairs generalizing third with
  | nil =>
      cases others
      exact .nil
  | cons related _ ih =>
      cases others with
      | cons also rest => exact .cons (combine _ _ _ related also) (ih rest)

/-- Mapping a partial function over elements that give results gives these. -/
theorem Forall₂.mapM_eq_some {f : α → Option β}
    (pairs : Forall₂ (fun element result => f element = some result) left right) :
    left.mapM f = some right := by
  induction pairs with
  | nil => rfl
  | cons found _ ih =>
      rw [mapM_cons, found, ih]
      rfl

/-- Two lists have the same image exactly if all related elements have. -/
theorem Forall₂.map_eq_map_iff {γ : Type} {property : α → Prop} {f : β → γ} {g : α → γ}
    (pairs : Forall₂ relation left right)
    (each : ∀ first ∈ left, ∀ second, relation first second →
      (f second = g first ↔ property first)) :
    right.map f = left.map g ↔ ∀ first ∈ left, property first := by
  induction pairs with
  | nil => simp
  | cons related _ ih =>
      rw [forall_mem_cons] at each
      rw [map_cons, map_cons, cons.injEq, forall_mem_cons, each.1 _ related, ih each.2]

end

/-- The results belong to the elements. -/
theorem forall₂_of_mapM_eq_some {results : List β} (found : list.mapM f = some results) :
    Forall₂ (fun element result => f element = some result) list results := by
  induction list generalizing results with
  | nil =>
      obtain rfl := Option.some.inj found
      exact .nil
  | cons element list ih =>
      rw [List.mapM_cons] at found
      obtain ⟨result, first, rest⟩ := Option.bind_eq_some_iff.mp found
      obtain ⟨later, others, whole⟩ := Option.bind_eq_some_iff.mp rest
      obtain rfl := Option.some.inj whole
      exact .cons first (ih others)

/-- Another function has the same results exactly if it agrees on all elements. -/
theorem mapM_eq_some_iff_agree {other : α → Option β} {results : List β}
    (found : list.mapM f = some results) :
    list.mapM other = some results ↔ ∀ element ∈ list, other element = f element := by
  have beside : Forall₂ (fun element result => other element = some result) list results ↔
      ∀ element ∈ list, other element = f element := by
    apply (forall₂_of_mapM_eq_some found).iff_forall
    intro element result related
    rw [related]
  rw [← beside]
  exact ⟨forall₂_of_mapM_eq_some, Forall₂.mapM_eq_some⟩

/-! ## Results or errors -/

section

variable {ε : Type}

/-- A function that succeeds on every element gives what mapping its results gives. -/
theorem mapM_eq_ok {f : α → Except ε β} {g : α → β} {list : List α}
    (all : ∀ element ∈ list, f element = .ok (g element)) : list.mapM f = .ok (list.map g) := by
  induction list with
  | nil => rfl
  | cons element list ih =>
      have rest := ih fun other member => all other (mem_cons_of_mem _ member)
      simp only [map_cons, mapM_cons, rest, all element mem_cons_self]
      rfl

/-- The results belong to the elements. -/
theorem forall₂_of_mapM_eq_ok {f : α → Except ε β} {list : List α} {results : List β}
    (mapped : list.mapM f = .ok results) :
    Forall₂ (fun element result => f element = .ok result) list results := by
  induction list generalizing results with
  | nil =>
      obtain rfl := Except.ok.inj mapped
      exact .nil
  | cons element list ih =>
      rw [mapM_cons] at mapped
      cases first : f element with
      | error error =>
          rw [first] at mapped
          cases mapped
      | ok result =>
          rw [first] at mapped
          cases others : list.mapM f with
          | error error =>
              rw [others] at mapped
              cases mapped
          | ok rest =>
              rw [others] at mapped
              obtain rfl := Except.ok.inj mapped
              exact .cons first (ih others)

end

end List
