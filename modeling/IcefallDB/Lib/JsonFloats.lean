import IcefallDB.Lib.JsonCodec
import IcefallDB.Lib.Options

/-!
# Numbers inside values

A reader of JSON text may make another number of a literal with a fraction than the one that was
written.  `Floats` collects the literals with a fraction or an exponent in the values of a type; the
canonical form of a value shows every one of them.
-/

namespace HashMap

variable {κ ν μ : Type}

/-- Replace every value of a map, in the iteration order of the map. -/
def mapValues (replace : ν → μ) (map : HashMap κ ν) : HashMap κ μ where
  entries := map.entries.map fun entry => ⟨entry.1, replace entry.2⟩
  nodupKeys := by
    have nodup := map.nodupKeys
    rw [List.NodupKeys, List.keys] at nodup ⊢
    rwa [List.map_map]

theorem mapValues_eq_self {replace : ν → ν} {map : HashMap κ ν}
    (same : ∀ entry ∈ map.entries, replace entry.2 = entry.2) : mapValues replace map = map := by
  apply AList.ext
  change map.entries.map _ = map.entries
  conv_rhs => rw [← List.map_id map.entries]
  exact List.map_congr_left fun entry member => by rw [same entry member]; rfl

end HashMap

namespace Json

/-! ## Fields of canonical forms -/

theorem field_canonicalize (name : String) (document : Json) :
    field name (canonicalize document) = (field name document).map (Option.map canonicalize) := by
  cases document with
  | obj entries =>
      have perm : ((sortEntries (canonicalizeEntries entries)).filter fun entry =>
          entry.1 = name).Perm
            ((entries.filter fun entry => entry.1 = name).map fun entry =>
              (entry.1, canonicalize entry.2)) := by
        have sorted := (List.perm_insertionSort (fun left right => left.1 ≤ right.1)
          (canonicalizeEntries entries)).filter fun entry => entry.1 = name
        rw [canonicalizeEntries_eq_map, List.filter_map] at sorted
        rw [canonicalizeEntries_eq_map]
        exact sorted
      rw [canonicalize, field, field]
      generalize (sortEntries (canonicalizeEntries entries)).filter (fun entry =>
        entry.1 = name) = sorted at perm
      generalize entries.filter (fun entry => entry.1 = name) = named at perm
      -- Two entries of one name stay two, in whichever order.
      rcases named with _ | ⟨entry, _ | ⟨second, rest⟩⟩
      · rw [perm.eq_nil]
        rfl
      · rw [List.perm_singleton.mp perm]
        rfl
      · rcases sorted with _ | ⟨_, _ | ⟨_, _⟩⟩
        · simpa using perm.length_eq
        · simpa using perm.length_eq
        · rfl
  | _ => rfl

/-- Records with one canonical form have fields with one canonical form. -/
theorem canonicalize_lookup_congr {left right : List (String × Option Json)}
    (left_nodup : (left.map Prod.fst).Nodup) (right_nodup : (right.map Prod.fst).Nodup)
    (same : canonicalize (record left) = canonicalize (record right)) (name : String) :
    (left.lookup name).join.map canonicalize = (right.lookup name).join.map canonicalize := by
  have fields := congrArg (field name) same
  rw [field_canonicalize, field_canonicalize, field_record left_nodup,
    field_record right_nodup] at fields
  exact Option.some.inj fields

theorem field_encode_map {α : Type} (codec : Codec α) {map : HashMap String α}
    {entry : (_ : String) × α} (member : entry ∈ map.entries) :
    field entry.1 (codec.map.encode map) = some (some (codec.encode entry.2)) := by
  obtain ⟨before, after, split⟩ := List.append_of_mem member
  have nodup := map.nodupKeys
  rw [split, List.NodupKeys, List.keys, List.map_append, List.map_cons] at nodup
  have fresh := List.nodup_middle.mp nodup
  rw [List.nodup_cons, List.mem_append] at fresh
  have others : ∀ other ∈ before ++ after, other.1 ≠ entry.1 := by
    rintro other found same
    rcases List.mem_append.mp found with found | found
    · exact fresh.1 (.inl (same ▸ List.mem_map_of_mem found))
    · exact fresh.1 (.inr (same ▸ List.mem_map_of_mem found))
  have single : (codec.encodeEntries map).filter (fun field => field.1 = entry.1) =
      [(entry.1, codec.encode entry.2)] := by
    rw [Codec.encodeEntries, split, List.filter_map, List.filter_append, List.filter_cons]
    rw [List.filter_eq_nil_iff.mpr fun other found => by
        simpa using others other (List.mem_append_left _ found),
      List.filter_eq_nil_iff.mpr fun other found => by
        simpa using others other (List.mem_append_right _ found)]
    simp
  change field entry.1 (.obj (codec.encodeEntries map)) = _
  rw [field, single]

/-! ## Literals of a value -/

/-- The literals with a fraction or an exponent in the values of a type. -/
structure Floats {α : Type} (codec : Codec α) where
  /-- The literals of a value. -/
  all : α → List FloatText
  /-- Replace the literals of a value. -/
  map : (FloatText → FloatText) → α → α
  /-- Literals that replace themselves leave the value as it is. -/
  map_eq_self : ∀ replace value, (∀ literal ∈ all value, replace literal = literal) →
    map replace value = value
  /-- The canonical form shows whether a literal was replaced by another. -/
  visible : ∀ replace value,
    canonicalize (codec.encode (map replace value)) = canonicalize (codec.encode value) →
      ∀ literal ∈ all value, replace literal = literal

namespace Floats

variable {α : Type} {codec : Codec α}

/-- Values without such literals. -/
def absent (codec : Codec α) : Floats codec where
  all _ := []
  map _ value := value
  map_eq_self _ _ _ := rfl
  visible _ _ _ _ member := absurd member List.not_mem_nil

variable (floats : Floats codec)

/-- The literals of all elements of a list. -/
def list : Floats codec.list where
  all values := values.flatMap floats.all
  map replace values := values.map (floats.map replace)
  map_eq_self replace values same := by
    conv_rhs => rw [← List.map_id values]
    refine List.map_congr_left fun value member => floats.map_eq_self replace value ?_
    exact fun literal found => same literal (List.mem_flatMap.mpr ⟨value, member, found⟩)
  visible replace values same := by
    intro literal found
    obtain ⟨value, member, found⟩ := List.mem_flatMap.mp found
    simp only [Codec.list, canonicalize, canonicalizeItems_eq_map, List.map_map, Json.arr.injEq,
      List.map_inj_left, Function.comp_apply] at same
    exact floats.visible replace value (same value member) literal found

/-- The literals of all values of a map. -/
def values : Floats codec.map where
  all map := map.entries.flatMap fun entry => floats.all entry.2
  map replace := HashMap.mapValues (floats.map replace)
  map_eq_self replace map same := by
    refine HashMap.mapValues_eq_self fun entry member => floats.map_eq_self replace entry.2 ?_
    exact fun literal found => same literal (List.mem_flatMap.mpr ⟨entry, member, found⟩)
  visible replace map same := by
    intro literal found
    obtain ⟨entry, member, found⟩ := List.mem_flatMap.mp found
    have replaced : ⟨entry.1, floats.map replace entry.2⟩ ∈
        (HashMap.mapValues (floats.map replace) map).entries :=
      List.mem_map.mpr ⟨entry, member, rfl⟩
    have fields := congrArg (field entry.1) same
    rw [field_canonicalize, field_canonicalize, field_encode_map codec member,
      field_encode_map codec replaced] at fields
    exact floats.visible replace entry.2 (by simpa using fields) literal found

theorem mem_list_of_forall₂ {related : α → α → Prop} {left right : List α}
    (respects : ∀ one other, related one other → ∀ literal ∈ floats.all other,
      literal ∈ floats.all one) (pairs : List.Forall₂ related left right) :
    ∀ literal ∈ floats.list.all right, literal ∈ floats.list.all left := by
  intro literal found
  obtain ⟨other, member, found⟩ := List.mem_flatMap.mp found
  obtain ⟨one, one_member, both⟩ := pairs.exists_of_mem_right member
  exact List.mem_flatMap.mpr ⟨one, one_member, respects one other both literal found⟩

/-- Instances of one map hold the same literals. -/
theorem mem_values_of_same {related : α → α → Prop} {left right : HashMap String α}
    (respects : ∀ one other, related one other → ∀ literal ∈ floats.all other,
      literal ∈ floats.all one) (same : HashMap.Same related left right) :
    ∀ literal ∈ floats.values.all right, literal ∈ floats.values.all left := by
  obtain ⟨aligned, perm, pointwise⟩ := same
  intro literal found
  obtain ⟨other, member, found⟩ := List.mem_flatMap.mp found
  obtain ⟨one, one_member, -, both⟩ := pointwise.exists_of_mem_right member
  exact List.mem_flatMap.mpr
    ⟨one, perm.mem_iff.mpr one_member, respects one.2 other.2 both literal found⟩

/-- The literals of an optional value. -/
def allSome (value : Option α) : List FloatText :=
  value.toList.flatMap floats.all

/-- Replace the literals of an optional value. -/
def mapSome (replace : FloatText → FloatText) (value : Option α) : Option α :=
  value.map (floats.map replace)

theorem mapSome_eq_self {replace : FloatText → FloatText} {value : Option α}
    (same : ∀ literal ∈ floats.allSome value, replace literal = literal) :
    floats.mapSome replace value = value := by
  cases value with
  | none => rfl
  | some value => exact congrArg some (floats.map_eq_self replace value (by simpa [allSome] using same))

theorem visible_mapSome {replace : FloatText → FloatText} {value : Option α}
    (same : ((floats.mapSome replace value).map codec.encode).map canonicalize =
      (value.map codec.encode).map canonicalize) :
    ∀ literal ∈ floats.allSome value, replace literal = literal := by
  cases value with
  | none => simp [allSome]
  | some value =>
      have shown := floats.visible replace value (by simpa [mapSome] using same)
      simpa [allSome] using shown

theorem visible_unlessEmpty {replace : FloatText → FloatText} {map : HashMap String α}
    (same : (unlessEmpty codec (floats.values.map replace map)).map canonicalize =
      (unlessEmpty codec map).map canonicalize) :
    ∀ literal ∈ floats.values.all map, replace literal = literal := by
  by_cases empty : map.entries = []
  · simp [values, empty]
  · have replaced : (floats.values.map replace map).entries ≠ [] := by
      simpa [values, HashMap.mapValues] using empty
    exact floats.values.visible replace map (by simpa [unlessEmpty, empty, replaced] using same)

/-- Read the literals of a value; one that is out of range is an error. -/
def reread (number : FloatText → Option FloatText) (value : α) : Option α :=
  if ∀ literal ∈ floats.all value, (number literal).isSome then
    some (floats.map (fun literal => (number literal).getD literal) value)
  else none

/-- Every literal of the value is read as itself. -/
def ReadBack (number : FloatText → Option FloatText) (value : α) : Prop :=
  ∀ literal ∈ floats.all value, number literal = some literal

/-- A change that touches no literal may be made before or after the value is read. -/
theorem reread_update {number : FloatText → Option FloatText} (update : α → α) {value : α}
    (all_eq : floats.all (update value) = floats.all value)
    (map_eq : ∀ replace, floats.map replace (update value) = update (floats.map replace value)) :
    floats.reread number (update value) = (floats.reread number value).map update := by
  rw [reread, reread, all_eq, map_eq]
  split <;> rfl

theorem reread_eq_self {number : FloatText → Option FloatText} {value : α}
    (same : floats.ReadBack number value) : floats.reread number value = some value := by
  rw [reread, if_pos fun literal found => by rw [same literal found]; rfl]
  refine congrArg some (floats.map_eq_self _ _ fun literal found => ?_)
  rw [same literal found]
  rfl

/-- A reader whose result has the canonical form of the value reads every literal as itself. -/
theorem readBack_of_reread {number : FloatText → Option FloatText} {value parsed : α}
    (read : floats.reread number value = some parsed)
    (same : canonicalize (codec.encode parsed) = canonicalize (codec.encode value)) :
    floats.ReadBack number value := by
  rw [reread] at read
  split at read
  · next inRange =>
      obtain rfl := Option.some.inj read
      intro literal found
      obtain ⟨other, other_eq⟩ := Option.isSome_iff_exists.mp (inRange literal found)
      have kept := floats.visible _ value same literal found
      rw [other_eq] at kept
      exact other_eq.trans (congrArg some kept)
  · cases read

end Floats

end Json
