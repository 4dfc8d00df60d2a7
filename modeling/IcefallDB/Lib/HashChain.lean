import Mathlib.Data.List.Chain
import Mathlib.Data.List.Sort
import Mathlib.Order.Lattice

/-!
# Chains of pinned records

Records listed newest first, each of which pins its predecessor.  Two such lists that agree on the
newest record agree as far down as both go.  A list of numbered records is read off a finite map in
the order of its keys.
-/

/-! ## Pinning -/

section Pinning

variable {α β : Type} {pins : α → α → Prop} {pins' : β → β → Prop} {same : α → β → Prop}

/-- If equal records pin equal predecessors, chains with equal heads are equal position by
position. -/
theorem List.IsChain.agree {original : List α} {tampered : List β} (chain : original.IsChain pins)
    (chain' : tampered.IsChain pins')
    (pinned : ∀ newer ∈ original, ∀ newer' ∈ tampered, ∀ older ∈ original, ∀ older' ∈ tampered,
      pins newer older → pins' newer' older' → same newer newer' → same older older')
    (heads : ∀ newest ∈ original.head?, ∀ newest' ∈ tampered.head?, same newest newest') :
    ∀ pair ∈ original.zip tampered, same pair.1 pair.2 := by
  induction original generalizing tampered with
  | nil => simp
  | cons newest original ih =>
      cases tampered with
      | nil => simp
      | cons newest' tampered =>
          have head_same : same newest newest' := heads newest rfl newest' rfl
          obtain ⟨first, chain⟩ := List.isChain_cons.mp chain
          obtain ⟨first', chain'⟩ := List.isChain_cons.mp chain'
          have rest := ih chain chain' (fun newer in_newer newer' in_newer' older in_older older'
              in_older' => pinned newer (.tail _ in_newer) newer' (.tail _ in_newer') older
                (.tail _ in_older) older' (.tail _ in_older')) ?_
          · intro pair member
            rcases List.mem_cons.mp member with rfl | member
            · exact head_same
            · exact rest pair member
          · intro older is_head older' is_head'
            exact pinned newest List.mem_cons_self newest' List.mem_cons_self older
              (.tail _ (List.mem_of_mem_head? is_head)) older'
              (.tail _ (List.mem_of_mem_head? is_head')) (first older is_head)
              (first' older' is_head') head_same

end Pinning

/-! ## Sorted numbers -/

/-- The numbers of a list in ascending order. -/
def ascending (numbers : List Nat) : List Nat :=
  numbers.insertionSort (· ≤ ·)

@[simp]
theorem mem_ascending {numbers : List Nat} {number : Nat} :
    number ∈ ascending numbers ↔ number ∈ numbers :=
  List.mem_insertionSort _

theorem sortedLT_ascending {numbers : List Nat} (nodup : numbers.Nodup) :
    (ascending numbers).SortedLT := by
  have sorted : (ascending numbers).SortedLE := List.sortedLE_insertionSort
  exact sorted.sortedLT_of_nodup ((List.perm_insertionSort _ _).nodup_iff.mpr nodup)

/-- Two ascending lists with the same members are the same list. -/
theorem ascending_eq {numbers others : List Nat} (nodup : numbers.Nodup) (nodup' : others.Nodup)
    (same : ∀ number, number ∈ numbers ↔ number ∈ others) : ascending numbers = ascending others := by
  have perm : numbers.Perm others := (List.perm_ext_iff_of_nodup nodup nodup').mpr same
  have sorted_perm : (ascending numbers).Perm (ascending others) :=
    (List.perm_insertionSort _ _).trans (perm.trans (List.perm_insertionSort _ _).symm)
  exact sorted_perm.eq_of_pairwise' List.sortedLE_insertionSort.pairwise
    List.sortedLE_insertionSort.pairwise

theorem le_of_getLast?_ascending {numbers : List Nat} {greatest number : Nat}
    (is_last : (ascending numbers).getLast? = some greatest) (member : number ∈ numbers) :
    number ≤ greatest := by
  have in_sorted : number ∈ ascending numbers := mem_ascending.mpr member
  have nonempty : ascending numbers ≠ [] := List.ne_nil_of_mem in_sorted
  rw [List.getLast?_eq_some_getLast nonempty, Option.some.injEq] at is_last
  rw [← is_last]
  exact List.sortedLE_insertionSort.pairwise.rel_getLast in_sorted

theorem le_of_head?_ascending {numbers : List Nat} {least number : Nat}
    (is_first : (ascending numbers).head? = some least) (member : number ∈ numbers) :
    least ≤ number := by
  have in_sorted : number ∈ ascending numbers := mem_ascending.mpr member
  have sorted : (ascending numbers).Pairwise (· ≤ ·) := List.sortedLE_insertionSort.pairwise
  obtain ⟨rest, sorted_eq⟩ := List.head?_eq_some_iff.mp is_first
  rw [sorted_eq] at in_sorted sorted
  rcases List.mem_cons.mp in_sorted with rfl | later
  · exact Nat.le_refl _
  · exact List.rel_of_pairwise_cons sorted later

/-- In an ascending list, each number is the closest one before the next. -/
theorem isChain_closest {numbers : List Nat} (sorted : numbers.SortedLT) :
    numbers.IsChain fun lower upper => lower ∈ numbers ∧ lower < upper ∧
      ∀ other ∈ numbers, other < upper → other ≤ lower := by
  refine List.isChain_iff_getElem.mpr fun index inside => ⟨List.getElem_mem _, ?_, ?_⟩
  · exact sorted.getElem_lt_getElem_iff.mpr (Nat.lt_succ_self index)
  · intro other member below
    obtain ⟨position, there, rfl⟩ := List.getElem_of_mem member
    have before := sorted.getElem_lt_getElem_iff.mp below
    exact sorted.getElem_le_getElem_iff.mpr (Nat.le_of_lt_succ before)

/-! ## Aligned lists -/

theorem List.prefix_of_zip_eq {α : Type} {longer shorter : List α}
    (length_le : shorter.length ≤ longer.length)
    (equal : ∀ pair ∈ longer.zip shorter, pair.1 = pair.2) : shorter <+: longer := by
  induction longer generalizing shorter with
  | nil =>
      obtain rfl := List.eq_nil_of_length_eq_zero (Nat.le_zero.mp length_le)
      exact List.nil_prefix
  | cons first longer ih =>
      cases shorter with
      | nil => exact List.nil_prefix
      | cons first' shorter =>
          have head_eq : first = first' := equal (first, first') List.mem_cons_self
          subst head_eq
          refine List.cons_prefix_cons.mpr ⟨rfl, ih (Nat.le_of_succ_le_succ length_le) ?_⟩
          exact fun pair member => equal pair (List.mem_cons_of_mem _ member)

/-- A prefix of a list without repetitions that contains its last element is the whole list. -/
theorem List.IsPrefix.eq_of_mem_getLast {α : Type} {shorter longer : List α} {last : α}
    (prefixed : shorter <+: longer) (nodup : longer.Nodup) (is_last : longer.getLast? = some last)
    (member : last ∈ shorter) : shorter = longer := by
  obtain ⟨rest, rfl⟩ := prefixed
  cases rest with
  | nil => simp
  | cons next rest =>
      rw [List.getLast?_append_of_ne_nil _ (by simp)] at is_last
      have in_rest : last ∈ next :: rest := List.mem_of_getLast? is_last
      exact absurd rfl ((List.nodup_append.mp nodup).2.2 last member last in_rest)
