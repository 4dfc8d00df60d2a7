import Mathlib.Data.List.Sort

/-!
# Merging ranges

Half-open ranges of numbers, swept in the order of their starts.  A range is merged into the one
before it if it starts no later than a limit that depends on the end of that.
-/

/-- The numbers from a start up to an end. -/
structure Span where
  start : Nat
  stop : Nat
  deriving DecidableEq

namespace Span

instance : Membership Nat Span where
  mem span point := span.start ≤ point ∧ point < span.stop

theorem mem_iff {point : Nat} {span : Span} :
    point ∈ span ↔ span.start ≤ point ∧ point < span.stop :=
  Iff.rfl

instance (point : Nat) (span : Span) : Decidable (point ∈ span) :=
  inferInstanceAs (Decidable (_ ∧ _))

/-- One range has all numbers of another. -/
def Covers (outer inner : Span) : Prop :=
  outer.start ≤ inner.start ∧ inner.stop ≤ outer.stop

/-- Two ranges as one, from the start of the first. -/
def join (left right : Span) : Span :=
  ⟨left.start, max left.stop right.stop⟩

@[simp]
theorem join_start (left right : Span) : (left.join right).start = left.start :=
  rfl

@[simp]
theorem join_stop (left right : Span) : (left.join right).stop = max left.stop right.stop :=
  rfl

variable (limit : Nat → Nat)

/-- Merge ranges into the last one as long as they start within the limit of its end. -/
def sweepFrom : Span → List Span → List Span
  | head, [] => [head]
  | head, next :: rest =>
      if next.start ≤ limit head.stop then
        sweepFrom (head.join next) rest
      else head :: sweepFrom next rest

/-- Merge ranges that are sorted by their starts. -/
def sweep : List Span → List Span
  | [] => []
  | head :: rest => sweepFrom limit head rest

/-- A number is in a range, or between ranges that are merged. -/
def Reached (spans : List Span) (point : Nat) : Prop :=
  ∃ left ∈ spans, left.start ≤ point ∧ (point < left.stop ∨
    ∃ right ∈ spans, point < right.start ∧ right.start ≤ limit left.stop)

variable {limit}

/-! ## What is covered -/

theorem exists_covers_sweepFrom (head : Span) (rest : List Span) {span : Span}
    (member : span ∈ head :: rest) (sorted : (head :: rest).Pairwise fun left right =>
      left.start ≤ right.start) : ∃ outer ∈ sweepFrom limit head rest, outer.Covers span := by
  induction rest generalizing head span with
  | nil =>
      obtain rfl := List.mem_singleton.mp member
      exact ⟨span, List.mem_singleton_self span, Nat.le_refl _, Nat.le_refl _⟩
  | cons next rest ih =>
      obtain ⟨first, others_sorted⟩ := List.pairwise_cons.mp sorted
      obtain ⟨second, rest_sorted⟩ := List.pairwise_cons.mp others_sorted
      rw [sweepFrom]
      split
      · have merged_sorted : (head.join next :: rest).Pairwise fun left right =>
            left.start ≤ right.start :=
          List.pairwise_cons.mpr
            ⟨fun other later => first other (List.mem_cons_of_mem next later), rest_sorted⟩
        obtain ⟨outer, outer_mem, starts, stops⟩ :=
          ih (head.join next) List.mem_cons_self merged_sorted
        rw [join_start] at starts
        rw [join_stop] at stops
        have start_le := first next List.mem_cons_self
        rcases List.mem_cons.mp member with rfl | later
        · exact ⟨outer, outer_mem, starts, by omega⟩
        · rcases List.mem_cons.mp later with rfl | latest
          · exact ⟨outer, outer_mem, by omega, by omega⟩
          · exact ih _ (List.mem_cons_of_mem _ latest) merged_sorted
      · rcases List.mem_cons.mp member with rfl | later
        · exact ⟨span, List.mem_cons_self, Nat.le_refl _, Nat.le_refl _⟩
        · obtain ⟨outer, outer_mem, outer_covers⟩ := ih next later others_sorted
          exact ⟨outer, List.mem_cons_of_mem head outer_mem, outer_covers⟩

/-- Every range is in one of the merged ranges. -/
theorem exists_covers_sweep {spans : List Span} {span : Span} (member : span ∈ spans)
    (sorted : spans.Pairwise fun left right => left.start ≤ right.start) :
    ∃ outer ∈ sweep limit spans, outer.Covers span := by
  cases spans with
  | nil => cases member
  | cons head rest => exact exists_covers_sweepFrom head rest member sorted

/-! ## Order of the merged ranges -/

/-- A property of ranges that merging keeps. -/
theorem forall_sweepFrom {property : Span → Prop}
    (merge : ∀ left right, property left → property right → property (left.join right))
    (head : Span) (rest : List Span) (all : ∀ span ∈ head :: rest, property span) :
    ∀ span ∈ sweepFrom limit head rest, property span := by
  induction rest generalizing head with
  | nil => exact all
  | cons next rest ih =>
      rw [List.forall_mem_cons, List.forall_mem_cons] at all
      obtain ⟨first, second, others⟩ := all
      rw [sweepFrom]
      split
      · exact ih _ (List.forall_mem_cons.mpr ⟨merge _ _ first second, others⟩)
      · rw [List.forall_mem_cons]
        exact ⟨first, ih next (List.forall_mem_cons.mpr ⟨second, others⟩)⟩

theorem forall_sweep {property : Span → Prop}
    (merge : ∀ left right, property left → property right → property (left.join right))
    {spans : List Span} (all : ∀ span ∈ spans, property span) :
    ∀ span ∈ sweep limit spans, property span := by
  cases spans with
  | nil => exact nofun
  | cons head rest => exact forall_sweepFrom merge head rest all

/-- Merged ranges start beyond the limits of those before them. -/
theorem pairwise_sweepFrom (head : Span) (rest : List Span)
    (sorted : (head :: rest).Pairwise fun left right => left.start ≤ right.start) :
    (sweepFrom limit head rest).Pairwise fun left right => limit left.stop < right.start := by
  induction rest generalizing head with
  | nil => exact List.pairwise_singleton _ _
  | cons next rest ih =>
      obtain ⟨first, others_sorted⟩ := List.pairwise_cons.mp sorted
      obtain ⟨second, rest_sorted⟩ := List.pairwise_cons.mp others_sorted
      rw [sweepFrom]
      split
      · exact ih _ (List.pairwise_cons.mpr
          ⟨fun other later => first other (List.mem_cons_of_mem next later), rest_sorted⟩)
      · next beyond =>
          rw [List.pairwise_cons]
          refine ⟨?_, ih next others_sorted⟩
          intro span member
          have starts : ∀ span ∈ sweepFrom limit next rest, next.start ≤ span.start :=
            forall_sweepFrom (fun _ _ left _ => left) next rest
              (List.forall_mem_cons.mpr ⟨Nat.le_refl _, second⟩)
          exact Nat.lt_of_lt_of_le (Nat.lt_of_not_le beyond) (starts span member)

theorem pairwise_sweep {spans : List Span}
    (sorted : spans.Pairwise fun left right => left.start ≤ right.start) :
    (sweep limit spans).Pairwise fun left right => limit left.stop < right.start := by
  cases spans with
  | nil => exact .nil
  | cons head rest => exact pairwise_sweepFrom head rest sorted

/-! ## What is reached -/

/-- Merging two ranges that are merged anyway changes nothing. -/
theorem reached_join_iff (monotone : ∀ {low high}, low ≤ high → limit low ≤ limit high)
    {head next : Span} {rest : List Span} (ordered : next.start ≤ next.stop)
    (merged : next.start ≤ limit head.stop)
    (sorted : (head :: next :: rest).Pairwise fun left right => left.start ≤ right.start)
    (point : Nat) :
    Reached limit (head.join next :: rest) point ↔ Reached limit (head :: next :: rest) point := by
  obtain ⟨first, others_sorted⟩ := List.pairwise_cons.mp sorted
  obtain ⟨second, -⟩ := List.pairwise_cons.mp others_sorted
  have head_le := first next List.mem_cons_self
  have limit_left := monotone (Nat.le_max_left head.stop next.stop)
  have limit_right := monotone (Nat.le_max_right head.stop next.stop)
  have later : ∀ span ∈ rest, next.start ≤ span.start := second
  constructor
  · rintro ⟨left, left_mem, starts, reach⟩
    rcases List.mem_cons.mp left_mem with rfl | left_rest
    · rw [join_start] at starts
      rw [join_stop] at reach
      by_cases between : point < next.start
      · exact ⟨head, by simp, starts, .inr ⟨next, by simp, between, merged⟩⟩
      · have next_starts := Nat.le_of_not_lt between
        rcases Nat.le_total head.stop next.stop with shorter | longer
        · rw [Nat.max_eq_right shorter] at reach
          refine ⟨next, by simp, next_starts, reach.imp_right ?_⟩
          rintro ⟨right, right_mem, before, within⟩
          rcases List.mem_cons.mp right_mem with rfl | right_rest
          · rw [join_start] at before
            omega
          · exact ⟨right, by simp [right_rest], before, within⟩
        · rw [Nat.max_eq_left longer] at reach
          refine ⟨head, by simp, starts, reach.imp_right ?_⟩
          rintro ⟨right, right_mem, before, within⟩
          rcases List.mem_cons.mp right_mem with rfl | right_rest
          · rw [join_start] at before
            omega
          · exact ⟨right, by simp [right_rest], before, within⟩
    · have left_le := later left left_rest
      refine ⟨left, by simp [left_rest], starts, reach.imp_right ?_⟩
      rintro ⟨right, right_mem, before, within⟩
      rcases List.mem_cons.mp right_mem with rfl | right_rest
      · rw [join_start] at before
        omega
      · exact ⟨right, by simp [right_rest], before, within⟩
  · rintro ⟨left, left_mem, starts, reach⟩
    rcases List.mem_cons.mp left_mem with rfl | left_later
    · refine ⟨left.join next, List.mem_cons_self, starts, ?_⟩
      rw [join_stop]
      rcases reach with inside | ⟨right, right_mem, before, within⟩
      · exact .inl (by omega)
      · rcases List.mem_cons.mp right_mem with rfl | right_later
        · omega
        · rcases List.mem_cons.mp right_later with rfl | right_rest
          · exact .inl (by omega)
          · exact .inr ⟨right, List.mem_cons_of_mem _ right_rest, before, by omega⟩
    · have next_starts : next.start ≤ point := by
        rcases List.mem_cons.mp left_later with rfl | left_rest
        · exact starts
        · exact (later left left_rest).trans starts
      have right_rest : ∀ right ∈ head :: next :: rest, point < right.start → right ∈ rest := by
        intro right right_mem before
        rcases List.mem_cons.mp right_mem with rfl | right_later
        · omega
        · rcases List.mem_cons.mp right_later with rfl | right_rest
          · omega
          · exact right_rest
      rcases List.mem_cons.mp left_later with rfl | left_rest
      · refine ⟨head.join left, List.mem_cons_self, head_le.trans starts, ?_⟩
        rw [join_stop]
        rcases reach with inside | ⟨right, right_mem, before, within⟩
        · exact .inl (by omega)
        · exact .inr ⟨right, List.mem_cons_of_mem _ (right_rest right right_mem before), before,
            by omega⟩
      · refine ⟨left, List.mem_cons_of_mem _ left_rest, starts, reach.imp_right ?_⟩
        rintro ⟨right, right_mem, before, within⟩
        exact ⟨right, List.mem_cons_of_mem _ (right_rest right right_mem before), before, within⟩

/-- A number is in a merged range if it is reached. -/
theorem mem_sweepFrom_iff (monotone : ∀ {low high}, low ≤ high → limit low ≤ limit high)
    (head : Span) (rest : List Span) (ordered : ∀ span ∈ rest, span.start ≤ span.stop)
    (sorted : (head :: rest).Pairwise fun left right => left.start ≤ right.start) (point : Nat) :
    (∃ span ∈ sweepFrom limit head rest, point ∈ span) ↔ Reached limit (head :: rest) point := by
  induction rest generalizing head with
  | nil =>
      simp only [sweepFrom, Reached, List.mem_singleton, exists_eq_left, mem_iff]
      constructor
      · rintro ⟨starts, stops⟩
        exact ⟨starts, .inl stops⟩
      · rintro ⟨starts, stops | ⟨before, -⟩⟩
        · exact ⟨starts, stops⟩
        · omega
  | cons next rest ih =>
      rw [List.forall_mem_cons] at ordered
      obtain ⟨first, others_sorted⟩ := List.pairwise_cons.mp sorted
      obtain ⟨second, rest_sorted⟩ := List.pairwise_cons.mp others_sorted
      rw [sweepFrom]
      split
      · next merged =>
          rw [ih (head.join next) ordered.2 (List.pairwise_cons.mpr
            ⟨fun other later => first other (List.mem_cons_of_mem next later), rest_sorted⟩)]
          exact reached_join_iff monotone ordered.1 merged sorted point
      · next beyond =>
          have apart : ∀ right ∈ next :: rest, limit head.stop < right.start := by
            intro right member
            have next_le : next.start ≤ right.start := by
              rcases List.mem_cons.mp member with rfl | later
              · exact Nat.le_refl _
              · exact second right later
            omega
          constructor
          · rintro ⟨span, member, inside⟩
            rcases List.mem_cons.mp member with rfl | later
            · exact ⟨span, List.mem_cons_self, inside.1, .inl inside.2⟩
            · obtain ⟨left, left_mem, starts, reach⟩ :=
                (ih next ordered.2 others_sorted).mp ⟨span, later, inside⟩
              refine ⟨left, List.mem_cons_of_mem head left_mem, starts, reach.imp_right ?_⟩
              rintro ⟨right, right_mem, bounds⟩
              exact ⟨right, List.mem_cons_of_mem head right_mem, bounds⟩
          · rintro ⟨left, left_mem, starts, reach⟩
            rcases List.mem_cons.mp left_mem with rfl | left_later
            · refine ⟨left, List.mem_cons_self, starts, ?_⟩
              rcases reach with stops | ⟨right, right_mem, before, within⟩
              · exact stops
              · rcases List.mem_cons.mp right_mem with rfl | right_later
                · omega
                · have beyond_limit := apart right right_later
                  omega
            · have reached : Reached limit (next :: rest) point := by
                refine ⟨left, left_later, starts, reach.imp_right ?_⟩
                rintro ⟨right, right_mem, before, within⟩
                rcases List.mem_cons.mp right_mem with rfl | right_later
                · have head_le := first left left_later
                  omega
                · exact ⟨right, right_later, before, within⟩
              obtain ⟨span, member, inside⟩ := (ih next ordered.2 others_sorted).mpr reached
              exact ⟨span, List.mem_cons_of_mem head member, inside⟩

theorem mem_sweep_iff (monotone : ∀ {low high}, low ≤ high → limit low ≤ limit high)
    {spans : List Span} (ordered : ∀ span ∈ spans, span.start ≤ span.stop)
    (sorted : spans.Pairwise fun left right => left.start ≤ right.start) (point : Nat) :
    (∃ span ∈ sweep limit spans, point ∈ span) ↔ Reached limit spans point := by
  cases spans with
  | nil =>
      constructor
      · rintro ⟨span, member, -⟩
        cases member
      · rintro ⟨span, member, -⟩
        cases member
  | cons head rest =>
      exact mem_sweepFrom_iff monotone head rest (List.forall_mem_cons.mp ordered).2 sorted point

theorem Reached.of_perm {left right : List Span} (perm : left.Perm right) {point : Nat}
    (reached : Reached limit left point) : Reached limit right point := by
  obtain ⟨first, first_mem, starts, reach⟩ := reached
  refine ⟨first, perm.mem_iff.mp first_mem, starts, reach.imp_right ?_⟩
  rintro ⟨second, second_mem, bounds⟩
  exact ⟨second, perm.mem_iff.mp second_mem, bounds⟩

end Span
