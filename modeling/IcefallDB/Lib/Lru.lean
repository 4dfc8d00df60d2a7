import Mathlib.Data.List.AList
import Mathlib.Data.List.Dedup
import Mathlib.Data.List.Nodup
import Mathlib.Data.List.Perm.Subperm

/-!
# Least recently used

A bounded cache keeps its entries beside the list of their keys in the order of use.  Looking a key up
and moving it to the end of the list are two steps, so that those of several users can come in any
order.  The list stays a list of the keys, each once, and as short as the capacity says; an entry is
there as long as fewer other keys than that have been used since it was last put or promoted.
-/

/-- Entries, and their keys from the least to the most recently used. -/
structure Lru (κ α : Type) where
  capacity : Nat
  entries : AList fun _ : κ => α
  order : List κ

namespace Lru

section

variable {κ α : Type}

/-- An empty cache. -/
def new (capacity : Nat) : Lru κ α :=
  { capacity, entries := ∅, order := [] }

def clear (cache : Lru κ α) : Lru κ α :=
  { cache with entries := ∅, order := [] }

/-- The order has the keys of the entries, each once, and no more than fit. -/
structure WellFormed (cache : Lru κ α) : Prop where
  nodup : cache.order.Nodup
  mem_order : ∀ key, key ∈ cache.order ↔ key ∈ cache.entries
  bounded : cache.order.length ≤ cache.capacity

theorem wellFormed_new (capacity : Nat) : (new capacity : Lru κ α).WellFormed := by
  refine ⟨List.nodup_nil, fun key => ?_, Nat.zero_le capacity⟩
  exact ⟨nofun, fun member => absurd member (AList.notMem_empty key)⟩

theorem wellFormed_clear (cache : Lru κ α) : cache.clear.WellFormed :=
  wellFormed_new cache.capacity

/-- A step of one of the users. -/
inductive Step (κ α : Type)
  | promote (key : κ)
  | put (key : κ) (value : α)
  | clear

/-- The key that a step uses. -/
def Step.key : Step κ α → Option κ
  | .promote key => some key
  | .put key _ => some key
  | .clear => none

/-- The step leaves the value of a key alone. -/
def Step.Spares (key : κ) : Step κ α → Prop
  | .promote _ => True
  | .put other _ => other ≠ key
  | .clear => False

end

variable {κ α : Type} [DecidableEq κ]

def lookup (cache : Lru κ α) (key : κ) : Option α :=
  cache.entries.lookup key

/-- Move a key that has an entry to the most recently used position. -/
def promote (cache : Lru κ α) (key : κ) : Lru κ α :=
  if key ∈ cache.entries then
    { cache with order := cache.order.filter (fun other => other ≠ key) ++ [key] }
  else cache

/-- Insert an entry or replace it, and evict the least recently used one if there is no room. -/
def put (cache : Lru κ α) (key : κ) (value : α) : Lru κ α :=
  if cache.capacity = 0 then cache
  else
    let existed := decide (key ∈ cache.entries)
    let order := (if existed then cache.order.filter fun other => other ≠ key else cache.order) ++ [key]
    let entries := cache.entries.insert key value
    if !existed && decide (cache.capacity < order.length) then
      match order with
      | evicted :: rest => { cache with entries := entries.erase evicted, order := rest }
      | [] => { cache with entries, order }
    else { cache with entries, order }

/-- Take a step. -/
def perform (cache : Lru κ α) : Step κ α → Lru κ α
  | .promote key => cache.promote key
  | .put key value => cache.put key value
  | .clear => cache.clear

/-- Take steps, in whatever order they come. -/
def run (cache : Lru κ α) (steps : List (Step κ α)) : Lru κ α :=
  steps.foldl perform cache

/-! ## The order -/

variable {cache : Lru κ α} {key other : κ} {value : α}

/-- The list with a key at its end. -/
theorem nodup_moved {order : List κ} (nodup : order.Nodup) :
    (order.filter (fun other => other ≠ key) ++ [key]).Nodup := by
  refine List.nodup_append.mpr ⟨nodup.filter _, List.nodup_singleton key, ?_⟩
  intro first first_mem second second_mem same
  obtain rfl := List.mem_singleton.mp second_mem
  exact of_decide_eq_true (List.mem_filter.mp first_mem).2 same

theorem mem_moved {order : List κ} :
    other ∈ order.filter (fun other => other ≠ key) ++ [key] ↔ other ∈ order ∨ other = key := by
  rw [List.mem_append, List.mem_filter, List.mem_singleton, decide_eq_true_iff]
  constructor
  · rintro (⟨member, -⟩ | same)
    · exact .inl member
    · exact .inr same
  · intro member
    by_cases same : other = key
    · exact .inr same
    · exact .inl ⟨member.resolve_right same, same⟩

/-- Moving a key to the end keeps the number of keys. -/
theorem length_moved {order : List κ} (nodup : order.Nodup) (member : key ∈ order) :
    (order.filter (fun other => other ≠ key) ++ [key]).length = order.length := by
  apply List.Perm.length_eq
  apply (List.perm_ext_iff_of_nodup (nodup_moved nodup) nodup).mpr
  intro other
  rw [mem_moved]
  constructor
  · rintro (old | rfl)
    · exact old
    · exact member
  · exact .inl

theorem WellFormed.promote (wellFormed : cache.WellFormed) (key : κ) :
    (cache.promote key).WellFormed := by
  unfold Lru.promote
  split
  · next present =>
      have member := (wellFormed.mem_order key).mpr present
      refine ⟨nodup_moved wellFormed.nodup, fun other => ?_, ?_⟩
      · rw [mem_moved, wellFormed.mem_order]
        constructor
        · rintro (old | rfl)
          · exact old
          · exact present
        · exact .inl
      · rw [length_moved wellFormed.nodup member]
        exact wellFormed.bounded
  · exact wellFormed

/-- What putting an entry does to the order, by whether the key had one and whether there is room. -/
theorem put_cases (wellFormed : cache.WellFormed) (key : κ) (value : α) :
    (cache.capacity = 0 ∧ cache.put key value = cache) ∨
    (key ∈ cache.entries ∧ cache.put key value =
      { cache with
        entries := cache.entries.insert key value
        order := cache.order.filter (fun other => other ≠ key) ++ [key] }) ∨
    (key ∉ cache.entries ∧ cache.order.length < cache.capacity ∧ cache.put key value =
      { cache with entries := cache.entries.insert key value, order := cache.order ++ [key] }) ∨
    ∃ evicted rest, key ∉ cache.entries ∧ cache.order = evicted :: rest ∧
      cache.order.length = cache.capacity ∧ cache.put key value =
        { cache with
          entries := (cache.entries.insert key value).erase evicted
          order := rest ++ [key] } := by
  unfold put
  split
  · next disabled => exact .inl ⟨disabled, rfl⟩
  · next enabled =>
      right
      by_cases present : key ∈ cache.entries
      · exact .inl ⟨present, by simp [present]⟩
      · right
        have bounded := wellFormed.bounded
        by_cases room : cache.order.length < cache.capacity
        · have fits : ¬ cache.capacity < cache.order.length + 1 := by omega
          exact .inl ⟨present, room, by simp [present, fits]⟩
        · right
          have full : cache.order.length = cache.capacity := by omega
          cases order_eq : cache.order with
          | nil =>
              rw [order_eq] at full
              exact absurd full.symm enabled
          | cons evicted rest =>
              have exceeds : cache.capacity < rest.length + 1 + 1 := by
                rw [← full, order_eq, List.length_cons]
                omega
              exact ⟨evicted, rest, present, rfl, order_eq ▸ full, by simp [present, exceeds]⟩

theorem WellFormed.put (wellFormed : cache.WellFormed) (key : κ) (value : α) :
    (cache.put key value).WellFormed := by
  obtain ⟨nodup, mem_order, bounded⟩ := wellFormed
  rcases put_cases ⟨nodup, mem_order, bounded⟩ key value with ⟨-, same⟩ | ⟨present, same⟩ |
      ⟨absent, room, same⟩ | ⟨evicted, rest, absent, order_eq, full, same⟩
  · rw [same]
    exact ⟨nodup, mem_order, bounded⟩
  · rw [same]
    have member := (mem_order key).mpr present
    refine ⟨nodup_moved nodup, fun other => ?_, ?_⟩
    · rw [mem_moved, mem_order, AList.mem_insert]
      exact or_comm
    · rw [length_moved nodup member]
      exact bounded
  · rw [same]
    have fresh : key ∉ cache.order := fun member => absent ((mem_order key).mp member)
    refine ⟨?_, fun other => ?_, ?_⟩
    · exact List.nodup_append_comm.mp (List.nodup_cons.mpr ⟨fresh, nodup⟩)
    · rw [List.mem_append, List.mem_singleton, mem_order, AList.mem_insert]
      exact or_comm
    · rw [List.length_append, List.length_singleton]
      exact room
  · rw [same]
    have fresh : key ∉ cache.order := fun member => absent ((mem_order key).mp member)
    rw [order_eq] at nodup fresh
    obtain ⟨gone, rest_nodup⟩ := List.nodup_cons.mp nodup
    obtain ⟨apart, rest_fresh⟩ := not_or.mp (mt List.mem_cons.mpr fresh)
    refine ⟨?_, fun other => ?_, ?_⟩
    · exact List.nodup_append_comm.mp (List.nodup_cons.mpr ⟨rest_fresh, rest_nodup⟩)
    · rw [List.mem_append, List.mem_singleton, AList.mem_erase, AList.mem_insert, ← mem_order, order_eq,
        List.mem_cons]
      constructor
      · rintro (member | rfl)
        · exact ⟨fun equal => gone (equal ▸ member), .inr (.inr member)⟩
        · exact ⟨apart, .inl rfl⟩
      · rintro ⟨kept, rfl | rfl | member⟩
        · exact .inr rfl
        · exact absurd rfl kept
        · exact .inl member
    · rw [order_eq, List.length_cons] at full
      rw [List.length_append, List.length_singleton, full]

theorem WellFormed.perform (wellFormed : cache.WellFormed) (step : Step κ α) :
    (cache.perform step).WellFormed := by
  cases step with
  | promote key => exact wellFormed.promote key
  | put key value => exact wellFormed.put key value
  | clear => exact wellFormed_clear cache

/-- Whatever steps are taken, the order is that of the entries. -/
theorem WellFormed.run (wellFormed : cache.WellFormed) (steps : List (Step κ α)) :
    (cache.run steps).WellFormed := by
  induction steps generalizing cache with
  | nil => exact wellFormed
  | cons step steps ih => exact ih (wellFormed.perform step)

/-! ## What stays -/

theorem capacity_perform (wellFormed : cache.WellFormed) (step : Step κ α) :
    (cache.perform step).capacity = cache.capacity := by
  cases step with
  | promote key =>
      rw [Lru.perform, promote]
      split <;> rfl
  | put key value =>
      rw [Lru.perform]
      rcases put_cases wellFormed key value with ⟨-, same⟩ | ⟨-, same⟩ | ⟨-, -, same⟩ |
          ⟨_, _, -, -, -, same⟩ <;> rw [same]
  | clear => rfl

theorem capacity_run (wellFormed : cache.WellFormed) (steps : List (Step κ α)) :
    (cache.run steps).capacity = cache.capacity := by
  induction steps generalizing cache with
  | nil => rfl
  | cons step steps ih => exact (ih (wellFormed.perform step)).trans (capacity_perform wellFormed step)

/-- What is found was there before, or a step has just put it. -/
theorem lookup_perform (wellFormed : cache.WellFormed) (step : Step κ α)
    (found : (cache.perform step).lookup key = some value) :
    cache.lookup key = some value ∨ step = .put key value := by
  cases step with
  | promote other =>
      rw [Lru.perform, promote] at found
      split at found <;> exact .inl found
  | clear =>
      rw [Lru.perform, lookup, clear] at found
      cases found
  | put other written =>
      have inserted : (cache.entries.insert other written).lookup key = some value →
          cache.lookup key = some value ∨ Step.put other written = .put key value := by
        intro found
        by_cases same : key = other
        · subst same
          rw [AList.lookup_insert] at found
          exact .inr (Option.some.inj found ▸ rfl)
        · rw [AList.lookup_insert_ne same] at found
          exact .inl found
      rw [Lru.perform] at found
      rcases put_cases wellFormed other written with ⟨-, same⟩ | ⟨-, same⟩ | ⟨-, -, same⟩ |
          ⟨evicted, rest, -, -, -, same⟩ <;> rw [same] at found
      · exact .inl found
      · exact inserted found
      · exact inserted found
      · apply inserted
        by_cases gone : key = evicted
        · rw [gone, lookup, AList.lookup_erase] at found
          cases found
        · rwa [lookup, AList.lookup_erase_ne gone] at found

/-- A key has its value, and only these keys have been used since. -/
structure Recent (cache : Lru κ α) (key : κ) (value : α) (used : List κ) : Prop where
  wellFormed : cache.WellFormed
  kept : cache.lookup key = some value ∧
    ∃ before behind, cache.order = before ++ key :: behind ∧ behind ⊆ used

/-- Moving another key to the end puts it behind. -/
theorem split_moved {before behind used : List κ} (different : other ≠ key) (listed : other ∈ used)
    (inside : behind ⊆ used) : ∃ first second,
      (before ++ key :: behind).filter (fun name => name ≠ other) ++ [other] =
        first ++ key :: second ∧ second ⊆ used := by
  refine ⟨before.filter fun name => name ≠ other,
    (behind.filter fun name => name ≠ other) ++ [other], ?_, ?_⟩
  · rw [List.filter_append, List.filter_cons_of_pos (by simpa using different.symm)]
    simp
  · intro name member
    rcases mem_moved.mp member with old | rfl
    · exact inside old
    · exact listed

/-- With fewer other keys used than fit, the key is not evicted. -/
theorem Recent.perform {used : List κ} (recent : Recent cache key value used) {step : Step κ α}
    (spares : step.Spares key) (listed : ∀ other ∈ step.key, other ∈ used)
    (fewer : (used.filter fun other => other ≠ key).dedup.length < cache.capacity) :
    Recent (cache.perform step) key value used := by
  obtain ⟨wellFormed, found, before, behind, order_eq, inside⟩ := recent
  refine ⟨wellFormed.perform step, ?_⟩
  cases step with
  | clear => exact spares.elim
  | promote other =>
      rw [Lru.perform, promote]
      split
      · refine ⟨found, ?_⟩
        by_cases same : other = key
        · subst same
          exact ⟨_, [], rfl, List.nil_subset _⟩
        · simp only [order_eq]
          exact split_moved same (listed other rfl) inside
      · exact ⟨found, before, behind, order_eq, inside⟩
  | put other written =>
      have different : key ≠ other := Ne.symm spares
      have kept : (cache.entries.insert other written).lookup key = some value :=
        (AList.lookup_insert_ne different).trans found
      rw [Lru.perform]
      rcases put_cases wellFormed other written with ⟨-, same⟩ | ⟨-, same⟩ | ⟨-, -, same⟩ |
          ⟨evicted, rest, absent, full_eq, full, same⟩
      · rw [same]
        exact ⟨found, before, behind, order_eq, inside⟩
      · rw [same]
        refine ⟨kept, ?_⟩
        simp only [order_eq]
        exact split_moved spares (listed other rfl) inside
      · rw [same]
        refine ⟨kept, before, behind ++ [other], by simp [order_eq], ?_⟩
        exact List.append_subset.mpr ⟨inside,
              List.cons_subset.mpr ⟨listed other rfl, List.nil_subset _⟩⟩
      · rw [same]
        cases before with
        | nil =>
            -- The key would be the one to evict, so all the others are behind it.
            exfalso
            obtain ⟨rfl, rfl⟩ := List.cons.inj (full_eq.symm.trans order_eq)
            have nodup := wellFormed.nodup
            rw [full_eq] at nodup
            obtain ⟨fresh, rest_nodup⟩ := List.nodup_cons.mp nodup
            have others : rest ++ [other] ⊆ (used.filter fun name => name ≠ evicted).dedup := by
              intro name member
              rw [List.mem_dedup, List.mem_filter, decide_eq_true_iff]
              rcases List.mem_append.mp member with old | new
              · exact ⟨inside old, fun equal => fresh (equal ▸ old)⟩
              · obtain rfl := List.mem_singleton.mp new
                exact ⟨listed name rfl, spares⟩
            have distinct : (rest ++ [other]).Nodup := by
              refine List.nodup_append_comm.mp (List.nodup_cons.mpr ⟨fun member => absent ?_, rest_nodup⟩)
              apply (wellFormed.mem_order other).mp
              rw [full_eq]
              exact List.mem_cons_of_mem evicted member
            have many := (distinct.subperm others).length_le
            rw [List.length_append, List.length_singleton] at many
            rw [full_eq, List.length_cons] at full
            omega
        | cons first before =>
            obtain ⟨rfl, rest_eq⟩ := List.cons.inj (full_eq.symm.trans order_eq)
            have nodup := wellFormed.nodup
            rw [order_eq] at nodup
            have apart : key ≠ evicted := by
              rintro rfl
              exact (List.nodup_cons.mp nodup).1 (List.mem_append_right _ List.mem_cons_self)
            refine ⟨(AList.lookup_erase_ne apart).trans kept, before, behind ++ [other],
              by simp [rest_eq], ?_⟩
            exact List.append_subset.mpr ⟨inside,
              List.cons_subset.mpr ⟨listed other rfl, List.nil_subset _⟩⟩

theorem Recent.run {used : List κ} (recent : Recent cache key value used) {steps : List (Step κ α)}
    (spares : ∀ step ∈ steps, step.Spares key) (listed : steps.filterMap Step.key ⊆ used)
    (fewer : (used.filter fun other => other ≠ key).dedup.length < cache.capacity) :
    (cache.run steps).lookup key = some value := by
  induction steps generalizing cache with
  | nil => exact recent.kept.1
  | cons step steps ih =>
      have performed := recent.perform (spares step List.mem_cons_self)
        (fun other used => listed (List.mem_filterMap.mpr ⟨step, List.mem_cons_self, used⟩)) fewer
      apply ih performed
      · exact fun later member => spares later (List.mem_cons_of_mem step member)
      · intro other member
        obtain ⟨later, later_mem, used⟩ := List.mem_filterMap.mp member
        exact listed (List.mem_filterMap.mpr ⟨later, List.mem_cons_of_mem step later_mem, used⟩)
      · rwa [capacity_perform recent.wellFormed]

theorem recent_put (wellFormed : cache.WellFormed) (enabled : cache.capacity ≠ 0) (key : κ) (value : α)
    (used : List κ) : Recent (cache.put key value) key value used := by
  refine ⟨wellFormed.put key value, ?_⟩
  have inserted : (cache.entries.insert key value).lookup key = some value := AList.lookup_insert _
  rcases put_cases wellFormed key value with ⟨disabled, -⟩ | ⟨-, same⟩ | ⟨-, -, same⟩ |
      ⟨evicted, rest, absent, order_eq, -, same⟩
  · exact absurd disabled enabled
  · rw [same]
    exact ⟨inserted, _, [], rfl, List.nil_subset _⟩
  · rw [same]
    exact ⟨inserted, _, [], rfl, List.nil_subset _⟩
  · rw [same]
    have apart : key ≠ evicted := by
      rintro rfl
      exact absent ((wellFormed.mem_order key).mp (order_eq ▸ List.mem_cons_self))
    exact ⟨(AList.lookup_erase_ne apart).trans inserted, rest, [], rfl, List.nil_subset _⟩

/-- The step puts the value under the key, or promotes the key while it has the value. -/
def Step.Uses (cache : Lru κ α) (key : κ) (value : α) : Step κ α → Prop
  | .promote other => other = key ∧ cache.lookup key = some value
  | .put other written => other = key ∧ written = value
  | .clear => False

theorem recent_perform (wellFormed : cache.WellFormed) (enabled : cache.capacity ≠ 0) {step : Step κ α}
    (uses : step.Uses cache key value) (used : List κ) :
    Recent (cache.perform step) key value used := by
  cases step with
  | clear => exact uses.elim
  | put other written =>
      obtain ⟨rfl, rfl⟩ := uses
      exact recent_put wellFormed enabled other written used
  | promote other =>
      obtain ⟨rfl, found⟩ := uses
      have present : other ∈ cache.entries := AList.lookup_isSome.mp (by rw [← lookup, found]; rfl)
      refine ⟨wellFormed.promote other, ?_⟩
      rw [Lru.perform, promote, if_pos present]
      exact ⟨found, _, [], rfl, List.nil_subset _⟩

/-- An entry stays while, since its last use, fewer other keys than fit are used and nobody replaces or
clears it. -/
theorem lookup_run_of_uses (wellFormed : cache.WellFormed) {step : Step κ α} {steps : List (Step κ α)}
    (uses : step.Uses cache key value) (spares : ∀ step ∈ steps, step.Spares key)
    (fewer : ((steps.filterMap Step.key).filter fun other => other ≠ key).dedup.length <
      cache.capacity) :
    ((cache.perform step).run steps).lookup key = some value := by
  have enabled : cache.capacity ≠ 0 := by omega
  apply (recent_perform wellFormed enabled uses _).run spares (List.Subset.refl _)
  rwa [capacity_perform wellFormed]

end Lru
