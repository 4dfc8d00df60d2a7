import IcefallDB.RowIndex
import Mathlib.Data.List.TakeWhile

/-!
# What row-index segments say

Segments list addresses of rows.  Rows that are coalesced into segments are listed again by the
segments, and a lookup in segments by ascending row id finds the last address that is listed for a
row id.
-/

namespace IcefallDB

/-! ## Listed addresses -/

namespace AddrSegment

/-- The addresses that a segment lists. -/
def rows (segment : AddrSegment) : List Address :=
  (List.range segment.len).map fun index =>
    (segment.startRowId + index, segment.fragmentId, segment.startOffset + index)

theorem rows_single (row : Address) : (single row).rows = [row] := by
  simp [rows, single]

theorem rows_succ (segment : AddrSegment) :
    ({ segment with len := segment.len + 1 } : AddrSegment).rows =
      segment.rows ++ [(segment.startRowId + segment.len, segment.fragmentId,
        segment.startOffset + segment.len)] := by
  simp [rows, List.range_succ]

theorem mem_rows {segment : AddrSegment} {row : Address} :
    row ∈ segment.rows ↔ ∃ index < segment.len, row =
      (segment.startRowId + index, segment.fragmentId, segment.startOffset + index) := by
  simp [rows, eq_comm]

end AddrSegment

/-- The addresses that segments list. -/
def listedRows (segments : List AddrSegment) : List Address :=
  segments.flatMap AddrSegment.rows

theorem listedRows_append (first second : List AddrSegment) :
    listedRows (first ++ second) = listedRows first ++ listedRows second :=
  List.flatMap_append

theorem listedRows_singleton (segment : AddrSegment) : listedRows [segment] = segment.rows :=
  List.flatMap_singleton ..

/-! ## Coalescing -/

theorem extendSegments_append (segments : List AddrSegment) (last : AddrSegment) (row : Address) :
    extendSegments (segments ++ [last]) row =
      if last.Extends row then segments ++ [{ last with len := last.len + 1 }]
      else segments ++ [last] ++ [AddrSegment.single row] := by
  simp [extendSegments]

theorem listedRows_extendSegments (segments : List AddrSegment) (row : Address) :
    listedRows (extendSegments segments row) = listedRows segments ++ [row] := by
  induction segments using List.reverseRecOn with
  | nil =>
      rw [extendSegments]
      exact (listedRows_singleton _).trans (AddrSegment.rows_single row)
  | append_singleton segments last _ =>
      rw [extendSegments_append]
      split
      · next extends_ =>
          obtain ⟨fragment, rowId, offset⟩ := extends_
          have next_row : (last.startRowId + last.len, last.fragmentId,
              last.startOffset + last.len) = row := by
            rw [fragment, rowId, offset]
          rw [listedRows_append, listedRows_append, listedRows_singleton, listedRows_singleton,
            AddrSegment.rows_succ, next_row, List.append_assoc]
      · rw [listedRows_append, listedRows_singleton, AddrSegment.rows_single]

/-- Coalescing loses no row and adds none. -/
theorem listedRows_coalesce (rows : List Address) : listedRows (coalesce rows) = rows := by
  induction rows using List.reverseRecOn with
  | nil => rfl
  | append_singleton rows row ih =>
      rw [coalesce, List.foldl_append, List.foldl_cons, List.foldl_nil, listedRows_extendSegments]
      exact congrArg (· ++ [row]) ih

variable {segment : AddrSegment}

theorem len_pos_of_mem_extendSegments {segments : List AddrSegment}
    (positive : ∀ segment ∈ segments, 0 < segment.len) {row : Address}
    (member : segment ∈ extendSegments segments row) : 0 < segment.len := by
  induction segments using List.reverseRecOn with
  | nil =>
      obtain rfl := List.mem_singleton.mp member
      exact Nat.one_pos
  | append_singleton segments last _ =>
      rw [extendSegments_append] at member
      split at member
      · rcases List.mem_append.mp member with old | new
        · exact positive segment (List.mem_append_left _ old)
        · obtain rfl := List.mem_singleton.mp new
          exact Nat.succ_pos _
      · rcases List.mem_append.mp member with old | new
        · exact positive segment old
        · obtain rfl := List.mem_singleton.mp new
          exact Nat.one_pos

variable {rows : List Address}

theorem len_pos_of_mem_coalesce (member : segment ∈ coalesce rows) : 0 < segment.len := by
  induction rows using List.reverseRecOn generalizing segment with
  | nil => cases member
  | append_singleton rows row ih =>
      rw [coalesce, List.foldl_append, List.foldl_cons, List.foldl_nil] at member
      exact len_pos_of_mem_extendSegments (fun _ => ih) member

/-! ## Ascending segments -/

/-- The segments are not empty and list rows by ascending row id. -/
structure Ascending (segments : List AddrSegment) : Prop where
  len_pos : ∀ segment ∈ segments, 0 < segment.len
  listed : (listedRows segments).Pairwise fun left right => left.1 ≤ right.1

theorem ascending_coalesce {rows : List Address}
    (sorted : rows.Pairwise fun left right => left.1 ≤ right.1) : Ascending (coalesce rows) where
  len_pos _ := len_pos_of_mem_coalesce
  listed := by rwa [listedRows_coalesce]

namespace Ascending

variable {segments : List AddrSegment} {last : AddrSegment}

theorem init (ascending : Ascending (segments ++ [last])) : Ascending segments where
  len_pos segment member := ascending.len_pos segment (List.mem_append_left _ member)
  listed := by
    have listed := ascending.listed
    rw [listedRows_append] at listed
    exact (List.pairwise_append.mp listed).1

/-- What comes before the last segment has no larger row id than that starts with. -/
theorem le_start (ascending : Ascending (segments ++ [last])) {row : Address}
    (member : row ∈ listedRows segments) : row.1 ≤ last.startRowId := by
  have listed := ascending.listed
  rw [listedRows_append, listedRows_singleton] at listed
  have first : (last.startRowId, last.fragmentId, last.startOffset) ∈ last.rows :=
    AddrSegment.mem_rows.mpr
      ⟨0, ascending.len_pos last (List.mem_append_right _ List.mem_cons_self), rfl⟩
  exact (List.pairwise_append.mp listed).2.2 row member _ first

theorem start_le (ascending : Ascending (segments ++ [last])) (member : segment ∈ segments) :
    segment.startRowId ≤ last.startRowId := by
  have first : (segment.startRowId, segment.fragmentId, segment.startOffset) ∈
      listedRows segments := by
    apply List.mem_flatMap.mpr
    exact ⟨segment, member,
      AddrSegment.mem_rows.mpr ⟨0, ascending.init.len_pos segment member, rfl⟩⟩
  exact ascending.le_start first

/-- The segments are in the order in which a row-index file stores them. -/
theorem sortSegments_eq (ascending : Ascending segments) : sortSegments segments = segments := by
  apply List.Pairwise.insertionSort_eq
  induction segments using List.reverseRecOn with
  | nil => exact List.Pairwise.nil
  | append_singleton segments last ih =>
      apply List.pairwise_append.mpr
      refine ⟨ih ascending.init, List.pairwise_singleton _ _, ?_⟩
      intro segment member other equal
      obtain rfl := List.mem_singleton.mp equal
      exact ascending.start_le member

end Ascending

/-! ## Lookups -/

/-- The last address of a row id. -/
def lastAddress (rows : List Address) (rowId : Nat) : Option (Nat × Nat) :=
  ((rows.filter fun row => row.1 = rowId).getLast?).map Prod.snd

theorem lastAddress_append (first second : List Address) (rowId : Nat) :
    lastAddress (first ++ second) rowId =
      (lastAddress second rowId).or (lastAddress first rowId) := by
  rw [lastAddress, List.filter_append, List.getLast?_append, Option.map_or]
  rfl

variable {rowId : Nat}

theorem lastAddress_eq_none (absent : ∀ row ∈ rows, row.1 ≠ rowId) :
    lastAddress rows rowId = none := by
  have empty : (rows.filter fun row => row.1 = rowId) = [] := by simpa using absent
  rw [lastAddress, empty]
  rfl

theorem lastAddress_singleton (row : Address) (rowId : Nat) :
    lastAddress [row] rowId = if row.1 = rowId then some row.2 else none := by
  by_cases same : row.1 = rowId <;> simp [lastAddress, same]

/-- Rows with distinct row ids have one address each. -/
theorem lastAddress_eq_some (distinct : (rows.map Prod.fst).Nodup) {place : Nat × Nat} :
    lastAddress rows rowId = some place ↔ (rowId, place) ∈ rows := by
  induction rows using List.reverseRecOn with
  | nil => simp [lastAddress]
  | append_singleton rows row ih =>
      rw [List.map_append, List.nodup_append] at distinct
      obtain ⟨init, -, apart⟩ := distinct
      rw [lastAddress_append, lastAddress_singleton, List.mem_append, List.mem_singleton,
        ← ih init]
      split
      · next same =>
          have absent : lastAddress rows rowId = none := by
            apply lastAddress_eq_none
            intro other member equal
            exact apart other.1 (List.mem_map_of_mem member) row.1 (by simp) (equal.trans same.symm)
          rw [absent]
          constructor
          · intro found
            refine .inr (Prod.ext same.symm ?_)
            simpa using found.symm
          · rintro (impossible | equal)
            · cases impossible
            · rw [← equal]
              rfl
      · next other =>
          rw [Option.none_or]
          constructor
          · exact .inl
          · rintro (found | equal)
            · exact found
            · exact absurd (congrArg Prod.fst equal).symm other

theorem lastAddress_rows (segment : AddrSegment) (rowId : Nat) :
    lastAddress segment.rows rowId =
      if segment.startRowId ≤ rowId ∧ rowId < segment.startRowId + segment.len then
        some (segment.fragmentId, segment.startOffset + (rowId - segment.startRowId))
      else none := by
  have distinct : (segment.rows.map Prod.fst).Nodup := by
    rw [AddrSegment.rows, List.map_map]
    apply List.Nodup.map _ List.nodup_range
    intro first second equal
    exact Nat.add_left_cancel equal
  split
  · next inside =>
      apply (lastAddress_eq_some distinct).mpr
      refine AddrSegment.mem_rows.mpr ⟨rowId - segment.startRowId, by omega, ?_⟩
      rw [Nat.add_sub_cancel' inside.1]
  · next outside =>
      apply lastAddress_eq_none
      intro row member equal
      obtain ⟨index, inside, rfl⟩ := AddrSegment.mem_rows.mp member
      dsimp only at equal
      omega

theorem takeWhile_append_of_all {segments : List AddrSegment} {last : AddrSegment}
    (ascending : Ascending (segments ++ [last])) (reached : last.startRowId ≤ rowId) :
    ((segments ++ [last]).takeWhile fun segment => segment.startRowId ≤ rowId) =
      segments ++ [last] := by
  apply List.takeWhile_eq_self_iff.mpr
  intro segment member
  rcases List.mem_append.mp member with old | new
  · exact decide_eq_true ((ascending.start_le old).trans reached)
  · obtain rfl := List.mem_singleton.mp new
    exact decide_eq_true reached

/-- A lookup finds the last address of a row id, except of the largest one. -/
theorem lookupInBase_eq {segments : List AddrSegment} (ascending : Ascending segments)
    (small : rowId < u64Max) :
    lookupInBase segments rowId = lastAddress (listedRows segments) rowId := by
  induction segments using List.reverseRecOn with
  | nil => rfl
  | append_singleton segments last ih =>
      rw [listedRows_append, listedRows_singleton, lastAddress_append, lastAddress_rows]
      by_cases reached : last.startRowId ≤ rowId
      · rw [lookupInBase, takeWhile_append_of_all ascending reached, List.getLast?_concat]
        dsimp only
        by_cases inside : rowId < last.startRowId + last.len
        · rw [if_pos (lt_min inside small), if_pos ⟨reached, inside⟩, Option.some_or]
        · have outside : ¬rowId < min (last.startRowId + last.len) u64Max := by omega
          have absent : lastAddress (listedRows segments) rowId = none := by
            apply lastAddress_eq_none
            intro row member equal
            have := ascending.le_start member
            have := ascending.len_pos last (List.mem_append_right _ List.mem_cons_self)
            omega
          rw [if_neg outside, if_neg fun both => inside both.2, absent, Option.none_or]
      · have stops : ((segments ++ [last]).takeWhile fun segment => segment.startRowId ≤ rowId) =
            segments.takeWhile fun segment => segment.startRowId ≤ rowId := by
          rw [List.takeWhile_append]
          split
          · next whole =>
              rw [List.takeWhile_cons_of_neg (by simpa using reached), List.append_nil]
              exact ((List.takeWhile_prefix _).eq_of_length whole).symm
          · rfl
        rw [if_neg fun both => reached both.1, Option.none_or, ← ih ascending.init, lookupInBase,
          stops, lookupInBase]

/-- The largest row id is found nowhere. -/
theorem lookupInBase_eq_none {segments : List AddrSegment} (large : u64Max ≤ rowId) :
    lookupInBase segments rowId = none := by
  rw [lookupInBase]
  split
  · rfl
  · exact if_neg (by omega)

end IcefallDB
