import IcefallDB.IndexBinary

/-!
# Learned models and their indexes

A learned model finds the row id of every text of its index.  It reads the text that it looks up as
an integer, so that it also finds the row ids of texts that denote the same integer.
-/

namespace IcefallDB

namespace LearnedKeyModel

/-- A text has row ids in an index. -/
def Stored (index : BTreeIndex) (text : String) : Prop :=
  ∃ rowIds, index.entries.lookup text = some rowIds

/-- The texts denote one integer of 64 bits. -/
def SameNumber (left right : String) : Prop :=
  ∃ number, parseI64 left.toList = some number ∧ parseI64 right.toList = some number

/-- A lookup finds at most one row id. -/
theorem length_lookup_le (model : LearnedKeyModel) (value : String) :
    (model.lookup value).length ≤ 1 := by
  rw [lookup]
  split
  · exact Nat.zero_le 1
  · split
    · exact Nat.zero_le 1
    · split
      · exact Nat.zero_le 1
      · dsimp only
        split
        · exact Nat.zero_le 1
        · split
          · split
            · exact Nat.le_refl 1
            · exact Nat.zero_le 1
          · exact Nat.zero_le 1

variable {index : BTreeIndex} {model : LearnedKeyModel}

/-- The one row id that a lookup has found. -/
theorem lookup_eq_singleton {value : String} {rowId : Nat} (member : rowId ∈ model.lookup value) :
    model.lookup value = [rowId] := by
  have short := model.length_lookup_le value
  cases found : model.lookup value with
  | nil =>
      rw [found] at member
      cases member
  | cons first rest =>
      rw [found, List.length_cons] at short
      have done : rest = [] := List.length_eq_zero_iff.mp (by omega)
      subst done
      rw [found] at member
      rw [List.mem_singleton.mp member]

/-- A text of the index is found with its row id. -/
theorem lookup_of_stored (fitted : fit index.entries = some model) {value : String}
    (stored : Stored index value) : model.lookup value = index.lookup value := by
  obtain ⟨rowIds, found⟩ := stored
  obtain ⟨pairs, -, parsed, -⟩ := exists_of_fit fitted
  obtain ⟨key, rowId, rfl, key_eq⟩ := exists_mem_of_parsePairs parsed found
  have member := (mem_lookup_of_fit fitted).mpr ⟨value, key, found, key_eq, key_eq⟩
  rw [lookup_eq_singleton member, BTreeIndex.lookup, postings, found]
  rfl

/-- Another text is found if it denotes the integer of a text of the index. -/
theorem lookup_eq_nil_iff (fitted : fit index.entries = some model) {value : String} :
    model.lookup value = [] ↔ ∀ text, Stored index text → ¬SameNumber text value := by
  rw [List.eq_nil_iff_forall_not_mem]
  constructor
  · rintro none_found text ⟨rowIds, found⟩ ⟨number, text_eq, value_eq⟩
    obtain ⟨pairs, -, parsed, -⟩ := exists_of_fit fitted
    obtain ⟨key, rowId, rfl, -⟩ := exists_mem_of_parsePairs parsed found
    exact none_found rowId
      ((mem_lookup_of_fit fitted).mpr ⟨text, number, found, text_eq, value_eq⟩)
  · intro apart rowId member
    obtain ⟨text, number, found, text_eq, value_eq⟩ := (mem_lookup_of_fit fitted).mp member
    exact apart text ⟨[rowId], found⟩ ⟨number, text_eq, value_eq⟩

/-- A model agrees with its index on the texts of the index and on those that denote none of its
integers. -/
theorem lookup_eq_lookup_iff (fitted : fit index.entries = some model) (value : String) :
    model.lookup value = index.lookup value ↔
      (∀ text, Stored index text → SameNumber text value → Stored index value) := by
  by_cases stored : Stored index value
  · constructor
    · intro _ _ _ _
      exact stored
    · intro _
      exact lookup_of_stored fitted stored
  · have missing : index.lookup value = [] := by
      rw [BTreeIndex.lookup, postings]
      cases found : index.entries.lookup value with
      | none => rfl
      | some rowIds => exact absurd ⟨rowIds, found⟩ stored
    rw [missing, lookup_eq_nil_iff fitted]
    constructor
    · intro apart text listed same
      exact absurd same (apart text listed)
    · intro own text listed same
      exact stored (own text listed same)

/-- The keys 5 and 6 with the row ids 10 and 11. -/
def fives : BTreeIndex where
  definition := { name := "idx", table := "t", column := "c", unique := true }
  snapshotSequence := 1
  entries := ⟨[⟨"5", [10]⟩, ⟨"6", [11]⟩], by simp [List.NodupKeys]⟩
  snapshotSequence_lt := by decide
  rowId_lt := by decide
  ascending := by decide

/-- The model of these keys. -/
def fivesModel : LearnedKeyModel where
  keyBase := 5
  keyStride := 1
  ridBase := 10
  ridStride := 1
  count := 2

theorem fit_fives : fit fives.entries = some fivesModel := by
  decide +kernel

theorem lookup_eq_lookup_iff_fives :
    fivesModel.lookup "6" = fives.lookup "6" ↔
      (∀ text, Stored fives text → SameNumber text "6" → Stored fives "6") :=
  lookup_eq_lookup_iff fit_fives "6"

/-- The model finds a row id for a text that is not in the index. -/
theorem not_lookup_eq_lookup :
    ¬∀ (index : BTreeIndex) (model : LearnedKeyModel), fit index.entries = some model →
      ∀ value, model.lookup value = index.lookup value := by
  intro agree
  have same := agree fives fivesModel fit_fives "05"
  have found : fivesModel.lookup "05" = [10] := by decide +kernel
  have missing : fives.lookup "05" = [] := by decide +kernel
  rw [found, missing] at same
  cases same

end LearnedKeyModel

end IcefallDB
