import IcefallDB.MutationWal.Fold

/-!
# Healing staged artifacts

A crash can leave the file of a staged artifact missing, truncated or complete.  Recovery writes
the inlined contents of missing files and trusts every file that is there.
-/

namespace IcefallDB

namespace MutationWal

/-! ## Hexadecimal contents -/

/-- Value of a hexadecimal digit at a position of the text. -/
def hexDigitValue (digit : UInt8) (index : Nat) : Except String Nat :=
  let code := digit.toNat
  if 48 ≤ code ∧ code ≤ 57 then .ok (code - 48)
  else if 65 ≤ code ∧ code ≤ 70 then .ok (code - 65 + 10)
  else if 97 ≤ code ∧ code ≤ 102 then .ok (code - 97 + 10)
  else
    .error ("Invalid character '" ++ String.ofList [Char.ofNat code] ++ "' at position "
      ++ toString index)

/-- Decode pairs of hexadecimal digits. -/
def hexDecodePairs : Nat → List UInt8 → Except String (List UInt8)
  | index, high :: low :: rest => do
      let high ← hexDigitValue high index
      let low ← hexDigitValue low (index + 1)
      let bytes ← hexDecodePairs (index + 2) rest
      .ok (UInt8.ofNat (high * 16 + low) :: bytes)
  | _, _ => .ok []

/-- Decode hexadecimal text. -/
def hexDecode (text : String) : Except String (List UInt8) :=
  let digits := Json.utf8 text.toList
  if digits.length % 2 = 1 then .error "Odd number of digits" else hexDecodePairs 0 digits

/-! ## Files after recovery -/

variable {β φ : Type} (decode : β → Except String φ)

theorem ends_materializeArtifact {artifact : StagedArtifact β} {before after : Storage β φ} :
    (materializeArtifact decode artifact).Ends before () after ↔
      (before.fileExists artifact.path = true ∧ before = after) ∨
        (before.fileExists artifact.path = false ∧ ∃ contents, decode artifact.hex = .ok contents ∧
          Effect.perform (StorageEffect.write artifact.path contents) before = after) := by
  simp only [materializeArtifact, Script.ends_bind, Script.ends_read]
  constructor
  · rintro ⟨_, _, ⟨rfl, rfl⟩, run⟩
    split at run
    · next there => exact .inl ⟨there, (Script.ends_pure.mp run).2⟩
    · next missing =>
        split at run
        · next contents decoded =>
            exact .inr ⟨by simpa using missing, contents, decoded, Script.ends_emit.mp run⟩
        · exact absurd run (by simp)
  · rintro (⟨there, rfl⟩ | ⟨missing, contents, decoded, rfl⟩)
    · exact ⟨_, _, ⟨rfl, rfl⟩, by simp [there]⟩
    · exact ⟨_, _, ⟨rfl, rfl⟩, by simp [missing, decoded]⟩

/-- The contents the first artifact for a path inlines. -/
def inlinedContents (artifacts : List (StagedArtifact β)) (path : String) : Option φ := do
  let artifact ← artifacts.find? fun artifact => artifact.path = path
  (decode artifact.hex).toOption

/-- Files that are there stay; a missing file gets the contents of the first artifact for it. -/
theorem lookup_each_materialize {artifacts : List (StagedArtifact β)} {before after : Storage β φ}
    (run : (Script.each (materializeArtifact decode) artifacts).Ends before () after)
    (path : String) :
    after.files.lookup path =
      (before.files.lookup path).or (inlinedContents decode artifacts path) := by
  induction artifacts generalizing before with
  | nil =>
      obtain rfl := Script.ends_each_nil.mp run
      simp [inlinedContents]
  | cons artifact artifacts ih =>
      obtain ⟨middle, first, rest⟩ := Script.ends_each_cons.mp run
      rw [ih rest]
      rcases (ends_materializeArtifact decode).mp first with ⟨there, rfl⟩ | ⟨missing, contents, decoded, rfl⟩
      · by_cases same : artifact.path = path
        · subst same
          obtain ⟨contents, found⟩ := Option.isSome_iff_exists.mp there
          simp [found]
        · simp [inlinedContents, same]
      · by_cases same : artifact.path = path
        · subst same
          have absent : before.files.lookup artifact.path = none := by
            simpa [Storage.fileExists] using missing
          simp [Effect.perform, Storage.perform, absent, inlinedContents, decoded,
            Except.toOption]
        · simp [Effect.perform, Storage.perform, inlinedContents, same,
            AList.lookup_insert_ne (Ne.symm same)]

/-- The two ways a table recovers deferred mutations. -/
inductive Recovery
  /-- Opening the table replays the log. -/
  | openTable
  /-- A checkpoint folds the log. -/
  | checkpoint (now : String)

/-- Run a recovery. -/
def recover : Recovery → Program β φ Unit
  | .openTable => do
      let _ ← currentManifest decode
      pure ()
  | .checkpoint now => do
      let _ ← checkpointLocked decode now
      pure ()

/-- The artifacts that a recovery of a directory replays. -/
def pendingArtifacts (storage : Storage β φ) : List (StagedArtifact β) :=
  match pointerManifest storage with
  | some base => replayedArtifacts base (readRecords storage)
  | none => []

/-- A recovery that succeeds leaves the files that were there and writes the pending ones that
were missing. -/
theorem lookup_recover {recovery : Recovery} {before after : Storage β φ}
    (run : (recover decode recovery).Ends before () after) (path : String) :
    after.files.lookup path =
      (before.files.lookup path).or (inlinedContents decode (pendingArtifacts before) path) := by
  cases recovery with
  | openTable =>
      simp only [recover, currentManifest, Script.ends_bind, Script.ends_pure] at run
      obtain ⟨live, _, ⟨base, _, load, replayed⟩, -, rfl⟩ := run
      obtain ⟨found, rfl⟩ := ends_loadPointerManifest.mp load
      obtain ⟨-, written⟩ := (ends_liveManifest decode).mp replayed
      rw [lookup_each_materialize decode written, pendingArtifacts, found]
  | checkpoint now =>
      simp only [recover, Script.ends_bind, Script.ends_pure] at run
      obtain ⟨folded, _, run, -, rfl⟩ := run
      simp only [checkpointLocked, Script.ends_bind, Script.ends_read] at run
      obtain ⟨_, _, ⟨rfl, rfl⟩, run⟩ := run
      split at run
      · next empty =>
          obtain ⟨-, rfl⟩ := Script.ends_pure.mp run
          have no_records : readRecords before = [] := List.isEmpty_iff.mp empty
          have nothing : pendingArtifacts before = [] := by
            unfold pendingArtifacts
            split
            · rw [no_records, replayedArtifacts]
            · rfl
          simp [nothing, inlinedContents]
      · obtain ⟨base, _, load, run⟩ := Script.ends_bind.mp run
        obtain ⟨found, rfl⟩ := ends_loadPointerManifest.mp load
        have pending_eq : pendingArtifacts before =
            replayedArtifacts base (readRecords before) := by
          rw [pendingArtifacts, found]
        split at run
        · next folded_already =>
            simp only [Script.ends_bind, Script.ends_emit, Script.ends_pure] at run
            obtain ⟨_, _, rfl, -, rfl⟩ := run
            have nothing : pendingArtifacts before = [] := by
              rw [pending_eq]
              exact replayedArtifacts_eq_nil (by simpa using folded_already)
            simp [nothing, inlinedContents, Effect.perform, Storage.perform]
        · simp only [fold_replayRecord, publishFolded, Script.ends_bind, Script.ends_read,
            Script.ends_emit, Script.ends_pure] at run
          obtain ⟨_, _, ⟨⟨⟩, written, wrote, rfl, rfl⟩, _, _, ⟨rfl, rfl⟩, _, _, rfl, _, _, rfl,
            _, _, rfl, -, rfl⟩ := run
          rw [pending_eq]
          exact lookup_each_materialize decode wrote path

/-! ## Which crash states are healed -/

/-- Every artifact of every record of the log has a file with exactly the inlined contents. -/
def Healed (log : List (MutationRecord β)) (storage : Storage β φ) : Prop :=
  ∀ record ∈ log, ∀ artifact ∈ record.stagedArtifacts, ∃ contents,
    decode artifact.hex = .ok contents ∧ storage.files.lookup artifact.path = some contents

/-- The crash left the file complete, or it left no file and the first pending artifact for the
path inlines the same contents. -/
def Recoverable (storage : Storage β φ) (artifact : StagedArtifact β) : Prop :=
  ∃ contents, decode artifact.hex = .ok contents ∧
    (storage.files.lookup artifact.path = some contents ∨
      storage.files.lookup artifact.path = none ∧
        inlinedContents decode (pendingArtifacts storage) artifact.path = some contents)

theorem healed_iff_recoverable {recovery : Recovery} {before after : Storage β φ}
    (run : (recover decode recovery).Ends before () after) :
    Healed decode before.log after ↔
      ∀ record ∈ before.log, ∀ artifact ∈ record.stagedArtifacts,
        Recoverable decode before artifact := by
  unfold Healed Recoverable
  refine forall₂_congr fun record _ => forall₂_congr fun artifact _ => ?_
  refine exists_congr fun contents => and_congr_right fun _ => ?_
  rw [lookup_recover decode run]
  cases before.files.lookup artifact.path <;> simp

/-- After a recovery that succeeds, every inlined artifact exists with exactly its bytes if and
only if each artifact file was complete before, or was missing and pending with the same bytes. -/
theorem healed_iff_complete_or_pending {recovery : Recovery}
    {before after : Storage String (List UInt8)}
    (run : (recover hexDecode recovery).Ends before () after) :
    Healed hexDecode before.log after ↔
      ∀ record ∈ before.log, ∀ artifact ∈ record.stagedArtifacts,
        Recoverable hexDecode before artifact :=
  healed_iff_recoverable hexDecode run

/-- A deferred delete of one row of fragment zero, with the two bytes of its deletion vector
inlined. -/
def deferredDelete : MutationRecord String where
  sequence := 2
  baseSequence := 1
  fragmentDeletes :=
    [{ fragmentId := 0, deletes := "_deletions/rg_0000000000000000__v1.del", deletedCount := 1 }]
  fragmentAdds := []
  indexGenerations := ∅
  rowindexGeneration := none
  nextFragmentId := 0
  nextRowId := 3
  stagedArtifacts := [{ path := "_deletions/rg_0000000000000000__v1.del", hex := "3a30" }]
  checksum := ""

/-- A directory with one deferred delete, whose deletion-vector file has the given contents. -/
def afterCrash (contents : Option (List UInt8)) : Storage String (List UInt8) where
  pointer := .latest 1
  manifests := AList.singleton 1
    { sequence := 1, rowGroups := [{ data := "rg_a.parquet", metaFile := "rg_a.meta" }]
      nextRowId := 3, nextFragmentId := 1 }
  log := [deferredDelete]
  files :=
    match contents with
    | some bytes => AList.singleton "_deletions/rg_0000000000000000__v1.del" bytes
    | none => ∅
  intents := ∅
  schemaPointer := some 1

/-- A truncated deletion vector is left as it is. -/
theorem truncated_not_healed :
    (recover hexDecode .openTable).Ends (afterCrash (some [0x3a])) () (afterCrash (some [0x3a])) ∧
      ¬Healed hexDecode (afterCrash (some [0x3a])).log (afterCrash (some [0x3a])) := by
  refine ⟨⟨by rfl, by rfl⟩, ?_⟩
  intro healed
  obtain ⟨contents, decoded, found⟩ := healed deferredDelete (by simp [afterCrash])
    { path := "_deletions/rg_0000000000000000__v1.del", hex := "3a30" } (by simp [deferredDelete])
  have inlined : hexDecode "3a30" = .ok [0x3a, 0x30] := by rfl
  rw [inlined] at decoded
  obtain rfl := Except.ok.inj decoded
  exact absurd found (by decide)

/-- A missing deletion vector is written. -/
theorem missing_healed :
    Healed hexDecode (afterCrash none).log
        ((recover hexDecode .openTable).final (afterCrash none)) ↔
      ∀ record ∈ (afterCrash none).log, ∀ artifact ∈ record.stagedArtifacts,
        Recoverable hexDecode (afterCrash none) artifact := by
  have run : (recover hexDecode .openTable).Ends (afterCrash none) ()
      ((recover hexDecode .openTable).final (afterCrash none)) := ⟨by rfl, rfl⟩
  exact healed_iff_complete_or_pending run

end MutationWal

end IcefallDB
