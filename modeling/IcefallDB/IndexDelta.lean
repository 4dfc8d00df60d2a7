import IcefallDB.IndexSelector
import IcefallDB.Lib.Simulation
import IcefallDB.Writer

/-!
# Deltas of secondary indexes

A delta drops row ids from all values of an index and then adds row ids to some.  Deltas are folded
into the index, or replayed into an overlay that is merged with the row ids of one value at a time.
Both give every value the same row ids.
-/

namespace IcefallDB

/-- Row ids that leave an index, and row ids that values get. -/
structure TombstoneDelta where
  tombstonedRowIds : List Nat
  adds : List (String × Nat)

/-! ## Row ids of values -/

/-- The row ids of a value. -/
def postings (entries : HashMap String (List Nat)) (value : String) : List Nat :=
  (entries.lookup value).getD []

/-- Add a row id to a value. -/
def pushRowId (entries : HashMap String (List Nat)) (add : String × Nat) :
    HashMap String (List Nat) :=
  entries.insert add.1 (postings entries add.1 ++ [add.2])

/-- The row ids that are added to a value. -/
def addedTo (value : String) (adds : List (String × Nat)) : List Nat :=
  (adds.filter fun add => add.1 = value).map Prod.snd

theorem postings_pushRowId (entries : HashMap String (List Nat)) (add : String × Nat)
    (value : String) :
    postings (pushRowId entries add) value = postings entries value ++ addedTo value [add] := by
  by_cases same : add.1 = value
  · subst same
    simp [postings, pushRowId, addedTo]
  · have other : value ≠ add.1 := fun equal => same equal.symm
    simp [postings, pushRowId, addedTo, same, AList.lookup_insert_ne other]

theorem postings_foldl_pushRowId (adds : List (String × Nat)) (entries : HashMap String (List Nat))
    (value : String) :
    postings (adds.foldl pushRowId entries) value =
      postings entries value ++ addedTo value adds := by
  induction adds generalizing entries with
  | nil => simp [addedTo]
  | cons add adds ih =>
      have split : addedTo value (add :: adds) = addedTo value [add] ++ addedTo value adds := by
        rw [addedTo, addedTo, addedTo, ← List.map_append, ← List.filter_append,
          List.singleton_append]
      rw [List.foldl_cons, ih, postings_pushRowId, split, List.append_assoc]

/-! ## Folding -/

/-- Drop row ids from all values, and the values that are left without any. -/
def dropTombstoned (tombstoned : Finset Nat) (entries : HashMap String (List Nat)) :
    HashMap String (List Nat) :=
  HashMap.filterMap
    (fun _ rowIds =>
      let kept := rowIds.filter (· ∉ tombstoned)
      if kept.isEmpty then none else some kept)
    entries

theorem postings_dropTombstoned (tombstoned : Finset Nat) (entries : HashMap String (List Nat))
    (value : String) :
    postings (dropTombstoned tombstoned entries) value =
      (postings entries value).filter (· ∉ tombstoned) := by
  rw [postings, dropTombstoned, HashMap.lookup_filterMap, postings]
  cases entries.lookup value with
  | none => rfl
  | some rowIds =>
      dsimp only [Option.bind_some, Option.getD_some]
      split
      · next empty => exact (List.isEmpty_iff.mp empty).symm
      · rfl

/-- Change an index by a delta. -/
def applyDelta (entries : HashMap String (List Nat)) (delta : TombstoneDelta) :
    HashMap String (List Nat) :=
  delta.adds.foldl pushRowId
    (if delta.tombstonedRowIds.isEmpty then entries
      else dropTombstoned delta.tombstonedRowIds.toFinset entries)

theorem postings_applyDelta (entries : HashMap String (List Nat)) (delta : TombstoneDelta)
    (value : String) :
    postings (applyDelta entries delta) value =
      (postings entries value).filter (· ∉ delta.tombstonedRowIds.toFinset) ++
        addedTo value delta.adds := by
  rw [applyDelta, postings_foldl_pushRowId]
  split
  · next empty => simp [List.isEmpty_iff.mp empty]
  · rw [postings_dropTombstoned]

/-! ## Overlays -/

namespace IndexDeltaOverlay

/-- An overlay that changes nothing. -/
def empty : IndexDeltaOverlay :=
  { tombstones := ∅, adds := ∅ }

/-- Drop a row id, also where it was added before. -/
def tombstone (overlay : IndexDeltaOverlay) (rowId : Nat) : IndexDeltaOverlay :=
  { tombstones := insert rowId overlay.tombstones
    adds := HashMap.filterMap (fun _ rowIds => some (rowIds.filter (· ≠ rowId))) overlay.adds }

/-- Add a row id to a value. -/
def push (overlay : IndexDeltaOverlay) (add : String × Nat) : IndexDeltaOverlay :=
  { overlay with adds := pushRowId overlay.adds add }

/-- Put a delta on top of an overlay. -/
def replay (overlay : IndexDeltaOverlay) (delta : TombstoneDelta) : IndexDeltaOverlay :=
  delta.adds.foldl push (delta.tombstonedRowIds.foldl tombstone overlay)

theorem merge_empty (value : String) (base : List Nat) : empty.merge value base = base := by
  simp [merge, empty]

theorem merge_tombstone (overlay : IndexDeltaOverlay) (rowId : Nat) (value : String)
    (base : List Nat) :
    (overlay.tombstone rowId).merge value base =
      (overlay.merge value base).filter (· ≠ rowId) := by
  have added : (((overlay.tombstone rowId).adds.lookup value).getD []) =
      ((overlay.adds.lookup value).getD []).filter (· ≠ rowId) := by
    rw [tombstone, HashMap.lookup_filterMap]
    cases overlay.adds.lookup value <;> rfl
  rw [merge, merge, added, List.filter_append, List.filter_filter]
  congr 1
  apply List.filter_congr
  intro other _
  simp [tombstone]

theorem merge_foldl_tombstone (rowIds : List Nat) (overlay : IndexDeltaOverlay) (value : String)
    (base : List Nat) :
    (rowIds.foldl tombstone overlay).merge value base =
      (overlay.merge value base).filter (· ∉ rowIds.toFinset) := by
  induction rowIds generalizing overlay with
  | nil => simp
  | cons rowId rowIds ih =>
      rw [List.foldl_cons, ih, merge_tombstone, List.filter_filter]
      apply List.filter_congr
      intro other _
      simp [Bool.and_comm]

theorem merge_foldl_push (adds : List (String × Nat)) (overlay : IndexDeltaOverlay)
    (value : String) (base : List Nat) :
    (adds.foldl push overlay).merge value base =
      overlay.merge value base ++ addedTo value adds := by
  have pushed : adds.foldl push overlay =
      { overlay with adds := adds.foldl pushRowId overlay.adds } := by
    induction adds generalizing overlay with
    | nil => rfl
    | cons add adds ih => rw [List.foldl_cons, ih, List.foldl_cons, push]
  rw [pushed, merge, merge, List.append_assoc]
  congr 1
  exact postings_foldl_pushRowId adds overlay.adds value

theorem merge_replay (overlay : IndexDeltaOverlay) (delta : TombstoneDelta) (value : String)
    (base : List Nat) :
    (overlay.replay delta).merge value base =
      (overlay.merge value base).filter (· ∉ delta.tombstonedRowIds.toFinset) ++
        addedTo value delta.adds := by
  rw [replay, merge_foldl_push, merge_foldl_tombstone]

end IndexDeltaOverlay

/-! ## Delta files -/

variable {R : Type}

/-- Read a delta; a missing file is skipped. -/
def readIndexDelta (path : String) : TableProgram R (Option TombstoneDelta) := do
  let storage ← Script.read
  match storage.files.lookup path with
  | none => pure none
  | some (.indexDelta tombstonedRowIds adds) => pure (some { tombstonedRowIds, adds })
  | some _ => Script.fail (.serialization path)

/-- Fold deltas into an index, from the oldest to the newest. -/
def applyDeltas (entries : HashMap String (List Nat)) (deltas : List String) :
    TableProgram R (HashMap String (List Nat)) :=
  Script.fold
    (fun entries path => do
      match ← readIndexDelta path with
      | some delta => pure (applyDelta entries delta)
      | none => pure entries)
    entries deltas

/-- Replay deltas into an overlay, from the oldest to the newest. -/
def loadIndexOverlay (deltas : List String) : TableProgram R IndexDeltaOverlay :=
  Script.fold
    (fun overlay path => do
      match ← readIndexDelta path with
      | some delta => pure (overlay.replay delta)
      | none => pure overlay)
    IndexDeltaOverlay.empty deltas

/-- The overlay of deltas on top of the row ids of a value gives what the value has in the index
that the deltas are folded into, whatever the files of the deltas are. -/
theorem merge_loadIndexOverlay (entries : HashMap String (List Nat)) (deltas : List String)
    (value : String) :
    (do
      let overlay ← loadIndexOverlay deltas
      pure (overlay.merge value (postings entries value)) : TableProgram R (List Nat)) =
    (do
      let folded ← applyDeltas entries deltas
      pure (postings folded value)) := by
  have alike : Script.Alike
      (fun overlay folded => overlay.merge value (postings entries value) = postings folded value)
      (loadIndexOverlay deltas : TableProgram R _) (applyDeltas entries deltas) := by
    apply Script.Alike.fold
    · intro overlay folded path same
      refine Script.Alike.bind (Script.Alike.refl _) ?_
      rintro (_ | delta) _ rfl
      · exact Script.Alike.pure same
      · apply Script.Alike.pure
        rw [IndexDeltaOverlay.merge_replay, postings_applyDelta, same]
    · exact IndexDeltaOverlay.merge_empty value _
  exact Script.Alike.bind_pure_eq alike fun _ _ same => same

end IcefallDB
