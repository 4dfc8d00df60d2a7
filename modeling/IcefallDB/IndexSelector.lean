import IcefallDB.Lib.Digits
import IcefallDB.Lib.JsonCodec
import IcefallDB.Lib.Moments
import IcefallDB.Lib.Options
import Mathlib.Data.Finset.Dedup
import Mathlib.Data.List.Sort

/-!
# Secondary indexes

A secondary index maps the texts of the values of a column to row ids.  It is kept whole, or as a
binary base with changes on top of it, or as a few numbers if keys and row ids are arithmetic
progressions.  An equality of the indexed column with a literal, or with some literals, is looked up
in it.
-/

namespace IcefallDB

/-! ## Learned models -/

/-- Integer keys and their row ids as arithmetic progressions. -/
structure LearnedKeyModel where
  keyBase : Int
  keyStride : Int
  ridBase : Int
  ridStride : Int
  count : Nat
  deriving DecidableEq

namespace LearnedKeyModel

/-- Arithmetic of 64 bits. -/
abbrev checked : Int → Option Int :=
  Moments.checked (2 ^ 63)

/-- A term of a progression, unless an operation overflows. -/
def term (base stride index : Int) : Option Int :=
  (checked (index * stride)).bind fun step => checked (base + step)

/-- The keys and row ids of an index whose keys are integers with one row id each. -/
def parsePairs (entries : HashMap String (List Nat)) : Option (List (Int × Nat)) :=
  entries.entries.mapM fun entry =>
    match entry.2 with
    | [rowId] => (parseI64 entry.1.toList).map fun key => (key, rowId)
    | _ => none

/-- The pairs are those of the model. -/
def isAffine (model : LearnedKeyModel) (pairs : List (Int × Nat)) : Bool :=
  pairs.zipIdx.all fun pair =>
    term model.keyBase model.keyStride pair.2 = some pair.1.1 &&
      term model.ridBase model.ridStride pair.2 = some (pair.1.2 : Int)

/-- The model of an index, if it has one. -/
def fit (entries : HashMap String (List Nat)) : Option LearnedKeyModel := do
  let pairs ← parsePairs entries
  match pairs.insertionSort fun left right => left.1 ≤ right.1 with
  | first :: second :: rest =>
      if (first :: second :: rest).any fun pair => 2 ^ 63 ≤ pair.2 then none
      else do
        let keyStride ← checked (second.1 - first.1)
        let ridStride ← checked (second.2 - first.2)
        let model : LearnedKeyModel :=
          { keyBase := first.1, keyStride, ridBase := first.2, ridStride, count := pairs.length }
        if keyStride = 0 ∨ !model.isAffine (first :: second :: rest) then none else some model
  | _ => none

/-- The row ids of a key. -/
def lookup (model : LearnedKeyModel) (value : String) : List Nat :=
  match parseI64 value.toList with
  | none => []
  | some key =>
      match checked (key - model.keyBase) with
      | none => []
      | some off =>
          if model.keyStride = 0 ∨ off.tmod model.keyStride ≠ 0 then []
          else
            let index := off.tdiv model.keyStride
            if index < 0 ∨ model.count ≤ index.toNat then []
            else
              match term model.ridBase model.ridStride index with
              | some rowId => if 0 ≤ rowId then [rowId.toNat] else []
              | none => []

end LearnedKeyModel

/-! ## Indexes -/

/-- Changes of an index on top of its base. -/
structure IndexDeltaOverlay where
  tombstones : Finset Nat
  adds : HashMap String (List Nat)

/-- Row ids of a value with the changes. -/
def IndexDeltaOverlay.merge (overlay : IndexDeltaOverlay) (value : String) (base : List Nat) :
    List Nat :=
  (base.filter fun rowId => rowId ∉ overlay.tombstones) ++ (overlay.adds.lookup value).getD []

/-- An index on a column. -/
inductive SnapshotIndex
  | json (column : String) (entries : HashMap String (List Nat))
  /-- The base has no postings of a value if it is malformed. -/
  | binary (column : String) (base : String → Option (List Nat)) (overlay : IndexDeltaOverlay)
  | learned (column : String) (model : LearnedKeyModel)

namespace SnapshotIndex

/-- The indexed column. -/
def column : SnapshotIndex → String
  | .json column _ | .binary column _ _ | .learned column _ => column

/-- The row ids of a value. -/
def lookup (value : String) : SnapshotIndex → Option (List Nat)
  | .json _ entries => some ((entries.lookup value).getD [])
  | .binary _ base overlay => (base value).map (overlay.merge value)
  | .learned _ model => some (model.lookup value)

end SnapshotIndex

/-! ## Looking up predicates -/

/-- Values of cells and of literals. -/
inductive IndexValue
  | null
  | int64 (value : Int64)
  | utf8 (value : String)
  | largeUtf8 (value : String)
  | uint64 (value : Nat)
  | other (name : String)
  deriving DecidableEq

/-- The text that a value is indexed by. -/
def IndexValue.key : IndexValue → Option String
  | .int64 value => some (toString value.toInt)
  | .utf8 value | .largeUtf8 value => some value
  | .null | .uint64 _ | .other _ => none

/-- Operands of predicates.  What is not looked into is a function of the cells of a row. -/
inductive OperandExpr
  | column (name : String)
  | literal (value : IndexValue)
  | other (value : List IndexValue → IndexValue)

/-- Predicates on the rows of a table. -/
inductive PredicateExpr
  | eq (left right : OperandExpr)
  | inList (expr : OperandExpr) (list : List OperandExpr) (negated : Bool)
  | other (holds : List IndexValue → Option Bool)

namespace IndexSelector

/-- The text of a literal. -/
def scalarToString : OperandExpr → Option String
  | .literal value => value.key
  | .column _ | .other _ => none

/-- The row ids that may satisfy a predicate, if it is an equality of the indexed column with
literals. -/
def indexEqualityLookup (index : SnapshotIndex) : PredicateExpr → Option (Finset Nat)
  | .eq (.column name) right =>
      if name ≠ index.column then none
      else do
        let key ← scalarToString right
        let rowIds ← index.lookup key
        some rowIds.toFinset
  | .inList (.column name) list false =>
      if name ≠ index.column then none
      else do
        let rowIds ← list.mapM fun item => (scalarToString item).bind fun key => index.lookup key
        some rowIds.flatten.toFinset
  | _ => none

end IndexSelector

/-! ## Lookups of learned models -/

namespace LearnedKeyModel

variable {model : LearnedKeyModel} {entries : HashMap String (List Nat)}

theorem term_eq_some {base stride index value : Int} (found : term base stride index = some value) :
    value = base + index * stride ∧ checked (index * stride) = some (index * stride) := by
  obtain ⟨step, step_eq, sum_eq⟩ := Option.bind_eq_some_iff.mp found
  obtain rfl := Moments.eq_of_checked step_eq
  exact ⟨Moments.eq_of_checked sum_eq, step_eq⟩

/-- The pairs are the texts with one row id each, read as integers. -/
theorem mem_of_parsePairs {pairs : List (Int × Nat)} (parsed : parsePairs entries = some pairs)
    {key : Int} {rowId : Nat} :
    (key, rowId) ∈ pairs ↔
      ∃ text, entries.lookup text = some [rowId] ∧ parseI64 text.toList = some key := by
  have beside := List.forall₂_of_mapM_eq_some parsed
  constructor
  · intro member
    obtain ⟨⟨text, rowIds⟩, listed, found⟩ := beside.exists_of_mem_right member
    dsimp only at found
    split at found
    · obtain ⟨own, own_eq, same⟩ := Option.map_eq_some_iff.mp found
      obtain ⟨rfl, rfl⟩ := Prod.mk.inj same
      exact ⟨text, AList.mem_lookup_iff.mpr listed, own_eq⟩
    · cases found
  · rintro ⟨text, found, key_eq⟩
    obtain ⟨pair, member, pair_eq⟩ :=
      beside.exists_of_mem_left (AList.mem_lookup_iff.mp found)
    dsimp only at pair_eq
    rw [key_eq] at pair_eq
    obtain rfl := Option.some.inj pair_eq
    exact member

/-- A text of an index with a model has one row id. -/
theorem exists_mem_of_parsePairs {pairs : List (Int × Nat)}
    (parsed : parsePairs entries = some pairs) {text : String} {rowIds : List Nat}
    (found : entries.lookup text = some rowIds) :
    ∃ key rowId, rowIds = [rowId] ∧ parseI64 text.toList = some key := by
  obtain ⟨pair, -, pair_eq⟩ := (List.forall₂_of_mapM_eq_some parsed).exists_of_mem_left
    (AList.mem_lookup_iff.mp found)
  dsimp only at pair_eq
  split at pair_eq
  · next rowId =>
      obtain ⟨key, key_eq, -⟩ := Option.map_eq_some_iff.mp pair_eq
      exact ⟨key, rowId, rfl, key_eq⟩
  · cases pair_eq

/-- The pairs behind a model, in order. -/
theorem exists_of_fit (fitted : fit entries = some model) :
    ∃ pairs sorted, parsePairs entries = some pairs ∧ sorted.Perm pairs ∧
      model.isAffine sorted = true ∧ model.keyStride ≠ 0 ∧ model.count = sorted.length := by
  obtain ⟨pairs, parsed, rest⟩ := Option.bind_eq_some_iff.mp fitted
  have perm := pairs.perm_insertionSort fun left right => left.1 ≤ right.1
  split at rest
  · next first second others sorted_eq =>
      rw [sorted_eq] at perm
      obtain ⟨-, rest⟩ := Option.ite_none_left_eq_some.mp rest
      obtain ⟨keyStride, -, rest⟩ := Option.bind_eq_some_iff.mp rest
      obtain ⟨ridStride, -, rest⟩ := Option.bind_eq_some_iff.mp rest
      obtain ⟨checks, same⟩ := Option.ite_none_left_eq_some.mp rest
      obtain rfl := Option.some.inj same
      rw [not_or, Bool.not_eq_true', Bool.not_eq_false] at checks
      exact ⟨pairs, _, parsed, perm, checks.2, checks.1, perm.length_eq.symm⟩
  · cases rest

theorem term_of_isAffine {pairs : List (Int × Nat)} (affine : model.isAffine pairs = true)
    {index : Nat} {key : Int} {rowId : Nat} (found : pairs[index]? = some (key, rowId)) :
    term model.keyBase model.keyStride index = some key ∧
      term model.ridBase model.ridStride index = some (rowId : Int) := by
  rw [isAffine, List.all_eq_true] at affine
  have both := affine ((key, rowId), index) (List.mem_zipIdx_iff_getElem?.mpr found)
  rw [Bool.and_eq_true, decide_eq_true_eq, decide_eq_true_eq] at both
  exact both

/-- The arithmetic of a lookup finds the place of the key in the progression. -/
theorem mem_lookup_iff (stride : model.keyStride ≠ 0) {value : String} {rowId : Nat} :
    rowId ∈ model.lookup value ↔
      ∃ key, parseI64 value.toList = some key ∧ ∃ index : Nat, index < model.count ∧
        key = model.keyBase + index * model.keyStride ∧
        checked (index * model.keyStride) = some (index * model.keyStride) ∧
        term model.ridBase model.ridStride index = some (rowId : Int) := by
  constructor
  · intro member
    rw [lookup] at member
    split at member
    · cases member
    · next key key_eq =>
        split at member
        · cases member
        · next off off_eq =>
            obtain rfl := Moments.eq_of_checked off_eq
            rw [List.mem_ite_nil_left] at member
            obtain ⟨divides, member⟩ := member
            rw [List.mem_ite_nil_left] at member
            obtain ⟨inside, member⟩ := member
            rw [not_or, not_not] at divides
            rw [not_or, not_lt, not_le] at inside
            have whole := Int.mul_tdiv_add_tmod (key - model.keyBase) model.keyStride
            rw [divides.2, Int.add_zero] at whole
            have natural := Int.toNat_of_nonneg inside.1
            split at member
            · next row row_eq =>
                rw [List.mem_ite_nil_right, List.mem_singleton] at member
                obtain ⟨nonneg, rfl⟩ := member
                refine ⟨key, key_eq, _, inside.2, ?_, ?_, ?_⟩
                · rw [natural, Int.mul_comm, whole]
                  omega
                · rw [natural, Int.mul_comm, whole]
                  exact off_eq
                · rw [natural, row_eq, Int.toNat_of_nonneg nonneg]
            · cases member
  · rintro ⟨key, key_eq, index, below, rfl, fits, row_eq⟩
    have off : model.keyBase + index * model.keyStride - model.keyBase =
        index * model.keyStride := by omega
    have inside : ¬((index : Int) < 0 ∨ model.count ≤ (index : Int).toNat) := by
      rw [Int.toNat_natCast]
      omega
    rw [lookup, key_eq]
    simp only [off, fits, Int.mul_tmod_left, Int.mul_tdiv_cancel _ stride, row_eq]
    rw [if_neg (not_or.mpr ⟨stride, not_not.mpr rfl⟩), if_neg inside,
      if_pos (Int.natCast_nonneg rowId)]
    exact List.mem_singleton.mpr rfl

/-- A fitted model finds the row id of the text that denotes the same integer. -/
theorem mem_lookup_of_fit (fitted : fit entries = some model) {value : String} {rowId : Nat} :
    rowId ∈ model.lookup value ↔
      ∃ text key, entries.lookup text = some [rowId] ∧ parseI64 text.toList = some key ∧
        parseI64 value.toList = some key := by
  obtain ⟨pairs, sorted, parsed, perm, affine, stride, count⟩ := exists_of_fit fitted
  rw [mem_lookup_iff stride]
  constructor
  · rintro ⟨key, key_eq, index, below, place, -, row_eq⟩
    rw [count] at below
    have found : sorted[index]? = some sorted[index] := List.getElem?_eq_getElem below
    obtain ⟨own_key, own_row⟩ := term_of_isAffine affine found
    have same_key : sorted[index].1 = key := (term_eq_some own_key).1.trans place.symm
    have same_row : sorted[index].2 = rowId :=
      Int.ofNat.inj (Option.some.inj (own_row.symm.trans row_eq))
    have listed : (key, rowId) ∈ pairs := by
      rw [← same_key, ← same_row]
      exact perm.mem_iff.mp (List.getElem_mem below)
    obtain ⟨text, text_eq, parsed_text⟩ := (mem_of_parsePairs parsed).mp listed
    exact ⟨text, key, text_eq, parsed_text, key_eq⟩
  · rintro ⟨text, key, text_eq, parsed_text, key_eq⟩
    have listed := perm.mem_iff.mpr ((mem_of_parsePairs parsed).mpr ⟨text, text_eq, parsed_text⟩)
    obtain ⟨index, found⟩ := List.mem_iff_getElem?.mp listed
    obtain ⟨own_key, own_row⟩ := term_of_isAffine affine found
    obtain ⟨place, fits⟩ := term_eq_some own_key
    rw [count]
    exact ⟨key, key_eq, index, (List.getElem?_eq_some_iff.mp found).1, place, fits, own_row⟩

end LearnedKeyModel

/-! ## Consistent indexes -/

/-- The postings of a text have the live row ids that have it.  Others may be stale. -/
def PostsLive (live : Nat → Prop) (holds : String → Nat → Prop)
    (postings : String → Option (List Nat)) : Prop :=
  ∀ text rowIds, postings text = some rowIds → ∀ rowId, live rowId →
    (rowId ∈ rowIds ↔ holds text rowId)

namespace SnapshotIndex

/-- An index has the live row ids of a column.  A learned model is that of such an index. -/
def Consistent (live : Nat → Prop) (holds : String → Nat → Prop) : SnapshotIndex → Prop
  | .learned _ model => ∃ entries, LearnedKeyModel.fit entries = some model ∧
      PostsLive live holds fun text => some ((entries.lookup text).getD [])
  | index => PostsLive live holds fun text => index.lookup text

/-- A text is found under a key: it is the key, or both denote one integer for a learned model. -/
def Reaches (key text : String) : SnapshotIndex → Prop
  | .learned _ _ => ∃ number, parseI64 key.toList = some number ∧ parseI64 text.toList = some number
  | _ => key = text

theorem mem_lookup_iff {live : Nat → Prop} {holds : String → Nat → Prop} {index : SnapshotIndex}
    (consistent : index.Consistent live holds) {key : String} {rowIds : List Nat}
    (found : index.lookup key = some rowIds) {rowId : Nat} (alive : live rowId) :
    rowId ∈ rowIds ↔ ∃ text, holds text rowId ∧ index.Reaches key text := by
  have exact_text : PostsLive live holds (fun text => index.lookup text) →
      (rowId ∈ rowIds ↔ ∃ text, holds text rowId ∧ key = text) := by
    intro posts
    rw [posts key rowIds found rowId alive]
    exact ⟨fun held => ⟨key, held, rfl⟩, fun ⟨text, held, same⟩ => same ▸ held⟩
  cases index with
  | json column entries => exact exact_text consistent
  | binary column base overlay => exact exact_text consistent
  | learned column model =>
      obtain ⟨entries, fitted, posts⟩ := consistent
      obtain rfl := Option.some.inj found
      rw [LearnedKeyModel.mem_lookup_of_fit fitted]
      constructor
      · rintro ⟨text, number, text_eq, parsed_text, parsed_key⟩
        have listed : rowId ∈ (entries.lookup text).getD [] := by
          rw [text_eq]
          exact List.mem_singleton_self rowId
        exact ⟨text, (posts text _ rfl rowId alive).mp listed, number, parsed_key, parsed_text⟩
      · rintro ⟨text, held, number, parsed_key, parsed_text⟩
        have listed := (posts text _ rfl rowId alive).mpr held
        obtain ⟨pairs, -, parsed, -⟩ := LearnedKeyModel.exists_of_fit fitted
        cases text_eq : entries.lookup text with
        | none =>
            rw [text_eq] at listed
            cases listed
        | some own =>
            obtain ⟨-, single, rfl, -⟩ :=
              LearnedKeyModel.exists_mem_of_parsePairs parsed text_eq
            rw [text_eq] at listed
            rw [List.mem_singleton.mp listed]
            exact ⟨text, number, text_eq, parsed_text, parsed_key⟩

end SnapshotIndex

/-- The values that a predicate compares its column with. -/
def PredicateExpr.literals : PredicateExpr → List OperandExpr
  | .eq _ right => [right]
  | .inList _ list _ => list
  | .other _ => []

/-- Some literal of a predicate is looked up where a text is. -/
def PredicateExpr.Reaches (predicate : PredicateExpr) (index : SnapshotIndex) (text : String) :
    Prop :=
  ∃ literal ∈ predicate.literals, ∃ key, IndexSelector.scalarToString literal = some key ∧
    index.Reaches key text

/-- The live row ids that a lookup finds. -/
theorem IndexSelector.mem_indexEqualityLookup {live : Nat → Prop} {holds : String → Nat → Prop}
    {index : SnapshotIndex} (consistent : index.Consistent live holds) {predicate : PredicateExpr}
    {rowIds : Finset Nat} (found : indexEqualityLookup index predicate = some rowIds) {rowId : Nat}
    (alive : live rowId) :
    rowId ∈ rowIds ↔ ∃ text, holds text rowId ∧ predicate.Reaches index text := by
  unfold indexEqualityLookup at found
  split at found
  · next name right =>
      obtain ⟨-, found⟩ := Option.ite_none_left_eq_some.mp found
      obtain ⟨key, key_eq, found⟩ := Option.bind_eq_some_iff.mp found
      obtain ⟨postings, postings_eq, same⟩ := Option.bind_eq_some_iff.mp found
      obtain rfl := Option.some.inj same
      rw [List.mem_toFinset, SnapshotIndex.mem_lookup_iff consistent postings_eq alive]
      constructor
      · rintro ⟨text, held, reached⟩
        exact ⟨text, held, right, List.mem_singleton_self right, key, key_eq, reached⟩
      · rintro ⟨text, held, literal, listed, own, own_eq, reached⟩
        obtain rfl := List.mem_singleton.mp listed
        obtain rfl := Option.some.inj (key_eq.symm.trans own_eq)
        exact ⟨text, held, reached⟩
  · next name list =>
      obtain ⟨-, found⟩ := Option.ite_none_left_eq_some.mp found
      obtain ⟨postings, postings_eq, same⟩ := Option.bind_eq_some_iff.mp found
      obtain rfl := Option.some.inj same
      have beside := List.forall₂_of_mapM_eq_some postings_eq
      rw [List.mem_toFinset, List.mem_flatten]
      constructor
      · rintro ⟨own, own_mem, member⟩
        obtain ⟨literal, listed, looked_up⟩ := beside.exists_of_mem_right own_mem
        obtain ⟨key, key_eq, own_eq⟩ := Option.bind_eq_some_iff.mp looked_up
        obtain ⟨text, held, reached⟩ :=
          (SnapshotIndex.mem_lookup_iff consistent own_eq alive).mp member
        exact ⟨text, held, literal, listed, key, key_eq, reached⟩
      · rintro ⟨text, held, literal, listed, key, key_eq, reached⟩
        obtain ⟨own, own_mem, looked_up⟩ := beside.exists_of_mem_left listed
        rw [key_eq, Option.bind_some] at looked_up
        exact ⟨own, own_mem,
          (SnapshotIndex.mem_lookup_iff consistent looked_up alive).mpr ⟨text, held, reached⟩⟩
  · cases found

end IcefallDB
