import Mathlib.Data.Finset.Sort

/-!
# Ordered maps and groups

A map whose entries are listed by ascending keys, and the groups of a list: its distinct keys in
order, each with the elements that have it.
-/

/-- A map whose entries are listed by ascending keys. -/
structure SortedMap (κ ν : Type) [LinearOrder κ] where
  entries : List (κ × ν)
  ascending : (entries.map Prod.fst).Pairwise (· < ·)

namespace SortedMap

variable {κ ν : Type} [LinearOrder κ]

instance : EmptyCollection (SortedMap κ ν) :=
  ⟨{ entries := [], ascending := .nil }⟩

@[simp]
theorem entries_empty : (∅ : SortedMap κ ν).entries = [] := rfl

/-- The value of a key. -/
def lookup (map : SortedMap κ ν) (key : κ) : Option ν :=
  (map.entries.find? fun entry => entry.1 = key).map Prod.snd

/-- Give a key a value in a list of entries. -/
def insertEntry (key : κ) (value : ν) : List (κ × ν) → List (κ × ν)
  | [] => [(key, value)]
  | entry :: entries =>
      if key < entry.1 then (key, value) :: entry :: entries
      else if key = entry.1 then (key, value) :: entries
      else entry :: insertEntry key value entries

variable {key : κ} {entry : κ × ν}

theorem mem_insertEntry {value : ν} {entries : List (κ × ν)}
    (ascending : (entries.map Prod.fst).Pairwise (· < ·)) :
    entry ∈ insertEntry key value entries ↔
      entry = (key, value) ∨ entry ∈ entries ∧ entry.1 ≠ key := by
  induction entries with
  | nil => simp [insertEntry]
  | cons head entries ih =>
      rw [List.map_cons, List.pairwise_cons] at ascending
      have above : ∀ other ∈ entries, head.1 < other.1 := fun other member =>
        ascending.1 other.1 (List.mem_map_of_mem member)
      rw [insertEntry]
      split
      · next below =>
          have distinct : ∀ other ∈ head :: entries, other.1 ≠ key := by
            intro other member same
            rcases List.mem_cons.mp member with rfl | later
            · exact below.ne same.symm
            · exact (below.trans (above other later)).ne same.symm
          simp only [List.mem_cons] at distinct ⊢
          constructor
          · rintro (here | member)
            · exact .inl here
            · exact .inr ⟨member, distinct entry member⟩
          · rintro (here | ⟨member, -⟩)
            · exact .inl here
            · exact .inr member
      · next notBelow =>
          split
          · next same =>
              have distinct : ∀ other ∈ entries, other.1 ≠ key := fun other member =>
                same ▸ (above other member).ne'
              simp only [List.mem_cons]
              constructor
              · rintro (here | member)
                · exact .inl here
                · exact .inr ⟨.inr member, distinct entry member⟩
              · rintro (here | ⟨rfl | member, other⟩)
                · exact .inl here
                · exact (other same.symm).elim
                · exact .inr member
          · next different =>
              simp only [List.mem_cons, ih ascending.2]
              constructor
              · rintro (rfl | here | ⟨member, other⟩)
                · exact .inr ⟨.inl rfl, Ne.symm different⟩
                · exact .inl here
                · exact .inr ⟨.inr member, other⟩
              · rintro (here | ⟨rfl | member, other⟩)
                · exact .inr (.inl here)
                · exact .inl rfl
                · exact .inr (.inr ⟨member, other⟩)

theorem pairwise_insertEntry (key : κ) (value : ν) {entries : List (κ × ν)}
    (ascending : (entries.map Prod.fst).Pairwise (· < ·)) :
    ((insertEntry key value entries).map Prod.fst).Pairwise (· < ·) := by
  induction entries with
  | nil => simp [insertEntry]
  | cons head entries ih =>
      have all := ascending
      rw [List.map_cons, List.pairwise_cons] at ascending
      rw [insertEntry]
      split
      · next below =>
          rw [List.map_cons, List.pairwise_cons]
          refine ⟨fun other member => ?_, all⟩
          rcases List.mem_cons.mp member with rfl | later
          · exact below
          · exact below.trans (ascending.1 other later)
      · next notBelow =>
          split
          · next same =>
              rw [List.map_cons, List.pairwise_cons]
              exact ⟨same ▸ ascending.1, ascending.2⟩
          · next different =>
              rw [List.map_cons, List.pairwise_cons]
              refine ⟨fun other member => ?_, ih ascending.2⟩
              obtain ⟨entry, found, rfl⟩ := List.mem_map.mp member
              rcases (mem_insertEntry ascending.2).mp found with rfl | ⟨found, -⟩
              · exact lt_of_le_of_ne (not_lt.mp notBelow) (Ne.symm different)
              · exact ascending.1 entry.1 (List.mem_map_of_mem found)

/-- Give a key a value. -/
def insert (map : SortedMap κ ν) (key : κ) (value : ν) : SortedMap κ ν where
  entries := insertEntry key value map.entries
  ascending := pairwise_insertEntry key value map.ascending

variable {map : SortedMap κ ν}

theorem mem_insert {value : ν} :
    entry ∈ (map.insert key value).entries ↔
      entry = (key, value) ∨ entry ∈ map.entries ∧ entry.1 ≠ key :=
  mem_insertEntry map.ascending

/-- A key has one value. -/
theorem value_unique {value value' : ν} (found : (key, value) ∈ map.entries)
    (found' : (key, value') ∈ map.entries) : value = value' := by
  have injective := List.inj_on_of_nodup_map (map.ascending.imp fun {_ _} => ne_of_lt)
  exact congrArg Prod.snd (injective found found' rfl)

theorem lookup_eq_some {value : ν} : map.lookup key = some value ↔ (key, value) ∈ map.entries := by
  rw [lookup, Option.map_eq_some_iff]
  constructor
  · rintro ⟨entry, found, rfl⟩
    have same : entry.1 = key := by simpa using List.find?_some found
    rw [← same]
    exact List.mem_of_find?_eq_some found
  · intro found
    have isSome : (map.entries.find? fun entry => entry.1 = key).isSome := by
      rw [List.find?_isSome]
      exact ⟨_, found, by simp⟩
    obtain ⟨⟨key', value'⟩, first⟩ := Option.isSome_iff_exists.mp isSome
    have same : key' = key := by simpa using List.find?_some first
    subst same
    exact ⟨_, first, (value_unique found (List.mem_of_find?_eq_some first)).symm⟩

theorem lookup_eq_none : map.lookup key = none ↔ ∀ value, (key, value) ∉ map.entries := by
  constructor
  · intro absent value found
    rw [lookup_eq_some.mpr found] at absent
    cases absent
  · intro absent
    cases found : map.lookup key with
    | none => rfl
    | some value => exact (absent value (lookup_eq_some.mp found)).elim

theorem lookup_insert_self (map : SortedMap κ ν) (key : κ) (value : ν) :
    (map.insert key value).lookup key = some value :=
  lookup_eq_some.mpr (mem_insert.mpr (.inl rfl))

theorem lookup_insert_of_ne (map : SortedMap κ ν) {key' : κ} (different : key' ≠ key) (value : ν) :
    (map.insert key value).lookup key' = map.lookup key' := by
  apply Option.ext
  intro value'
  rw [lookup_eq_some, lookup_eq_some, mem_insert]
  constructor
  · rintro (here | ⟨found, -⟩)
    · exact absurd (congrArg Prod.fst here) different
    · exact found
  · intro found
    exact .inr ⟨found, different⟩

/-- Replace the values. -/
def mapValues {μ : Type} (replace : ν → μ) (map : SortedMap κ ν) : SortedMap κ μ where
  entries := map.entries.map fun entry => (entry.1, replace entry.2)
  ascending := by simpa [Function.comp_def] using map.ascending

theorem lookup_mapValues {μ : Type} (replace : ν → μ) (map : SortedMap κ ν) (key : κ) :
    (map.mapValues replace).lookup key = (map.lookup key).map replace := by
  apply Option.ext
  intro value
  rw [lookup_eq_some, Option.map_eq_some_iff, mapValues, List.mem_map]
  constructor
  · rintro ⟨entry, found, same⟩
    obtain ⟨rfl, rfl⟩ := Prod.mk.inj same
    exact ⟨entry.2, lookup_eq_some.mpr found, rfl⟩
  · rintro ⟨old, found, rfl⟩
    exact ⟨(key, old), lookup_eq_some.mp found, rfl⟩

/-- The entries below a key, and the others. -/
def splitOff (map : SortedMap κ ν) (key : κ) : SortedMap κ ν × SortedMap κ ν :=
  ({ entries := map.entries.filter (·.1 < key)
     ascending := map.ascending.sublist (List.filter_sublist.map Prod.fst) },
   { entries := map.entries.filter (key ≤ ·.1)
     ascending := map.ascending.sublist (List.filter_sublist.map Prod.fst) })

theorem mem_splitOff_fst :
    entry ∈ (map.splitOff key).1.entries ↔ entry ∈ map.entries ∧ entry.1 < key := by
  simp [splitOff]

theorem mem_splitOff_snd :
    entry ∈ (map.splitOff key).2.entries ↔ entry ∈ map.entries ∧ key ≤ entry.1 := by
  simp [splitOff]

end SortedMap

/-! ## Taking in entries -/

section

variable {κ μ ε α : Type} (keyOf : ε → κ) (read : μ → κ → α) {take : μ → ε → μ} {entries : List ε}
  {start : μ} {key : κ}

/-- Entries of other keys leave what is read at a key. -/
theorem read_foldl_of_notMem (other : ∀ state entry, key ≠ keyOf entry →
      read (take state entry) key = read state key)
    (absent : ∀ entry ∈ entries, keyOf entry ≠ key) :
    read (entries.foldl take start) key = read start key := by
  induction entries generalizing start with
  | nil => rfl
  | cons entry entries ih =>
      rw [List.forall_mem_cons] at absent
      rw [List.foldl_cons, ih absent.2, other start entry absent.1.symm]

/-- Of entries with distinct keys, only the one of a key changes what is read there. -/
theorem read_foldl_of_mem (other : ∀ state entry, key ≠ keyOf entry →
      read (take state entry) key = read state key)
    (update : α → ε → α) (here : ∀ state entry, keyOf entry = key →
      read (take state entry) key = update (read state key) entry)
    (distinct : (entries.map keyOf).Nodup) {entry : ε} (member : entry ∈ entries)
    (key_eq : keyOf entry = key) :
    read (entries.foldl take start) key = update (read start key) entry := by
  induction entries generalizing start with
  | nil => cases member
  | cons first entries ih =>
      rw [List.map_cons, List.nodup_cons] at distinct
      rw [List.foldl_cons]
      rcases List.mem_cons.mp member with rfl | later
      · rw [read_foldl_of_notMem keyOf read other, here start entry key_eq]
        intro next next_mem same
        exact distinct.1 (List.mem_map.mpr ⟨next, next_mem, same.trans key_eq.symm⟩)
      · rw [ih distinct.2 later, other start first]
        intro same
        exact distinct.1 (List.mem_map.mpr ⟨entry, later, key_eq.trans same⟩)

end

namespace Groups

variable {ρ κ ν : Type} [LinearOrder κ] (key : ρ → κ)

/-- The distinct keys of a list, in order. -/
def keys (rows : List ρ) : List κ :=
  (rows.map key).toFinset.sort (· ≤ ·)

/-- The elements of a list that have a key. -/
def members (rows : List ρ) (group : κ) : List ρ :=
  rows.filter fun row => key row = group

variable {key}

theorem mem_keys {rows : List ρ} {group : κ} :
    group ∈ keys key rows ↔ ∃ row ∈ rows, key row = group := by
  simp [keys]

theorem pairwise_keys (rows : List ρ) : (keys key rows).Pairwise (· < ·) :=
  Finset.sortedLT_sort _ |>.pairwise

theorem members_append (first second : List ρ) (group : κ) :
    members key (first ++ second) group = members key first group ++ members key second group :=
  List.filter_append ..

theorem members_eq_nil {rows : List ρ} {group : κ} (absent : ∀ row ∈ rows, key row ≠ group) :
    members key rows group = [] := by
  simpa [members] using absent

/-- Only the groups of a list have each of its keys once, in order, with the value of the key. -/
theorem eq_map_keys {rows : List ρ} (value : κ → ν) {entries : List (κ × ν)}
    (ascending : (entries.map Prod.fst).Pairwise (· < ·))
    (values : ∀ entry ∈ entries, entry.1 ∈ keys key rows ∧ entry.2 = value entry.1)
    (complete : ∀ group ∈ keys key rows, group ∈ entries.map Prod.fst) :
    entries = (keys key rows).map fun group => (group, value group) := by
  have same : entries.map Prod.fst = keys key rows := by
    apply List.Perm.eq_of_pairwise (fun _ _ _ _ below above => absurd above below.not_gt)
      ascending (pairwise_keys rows)
    rw [List.perm_ext_iff_of_nodup (ascending.imp fun {_ _} => ne_of_lt)
      ((pairwise_keys rows).imp fun {_ _} => ne_of_lt)]
    intro group
    constructor
    · intro member
      obtain ⟨entry, found, rfl⟩ := List.mem_map.mp member
      exact (values entry found).1
    · exact complete group
  calc
    entries = entries.map id := (List.map_id entries).symm
    _ = entries.map fun entry => (entry.1, value entry.1) :=
      List.map_congr_left fun entry member => Prod.ext rfl (values entry member).2
    _ = (keys key rows).map fun group => (group, value group) := by
      rw [← same, List.map_map]
      rfl

omit [LinearOrder κ] in
/-- Entries are those of a function of the keys when each has its value. -/
theorem perm_map_iff {entries : List (κ × ν)} {all : List κ}
    (perm : (entries.map Prod.fst).Perm all) (value : κ → ν) :
    entries.Perm (all.map fun group => (group, value group)) ↔
      ∀ entry ∈ entries, entry.2 = value entry.1 := by
  constructor
  · intro same entry member
    obtain ⟨group, -, rfl⟩ := List.mem_map.mp (same.mem_iff.mp member)
    rfl
  · intro values
    have entries_eq : entries = (entries.map Prod.fst).map fun group => (group, value group) := by
      rw [List.map_map]
      exact (List.map_id entries).symm.trans
        (List.map_congr_left fun entry member => Prod.ext rfl (values entry member))
    rw [entries_eq]
    exact perm.map _

end Groups
