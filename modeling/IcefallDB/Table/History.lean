import IcefallDB.Table.Action
import IcefallDB.Table.Chain
import Mathlib

/-!
# The chain of manifests along a run

Commits, folds of the mutation log and compactions publish manifests above all others and linked to
the closest one; a collection prunes manifest files from below.  So every run continues the chain.
-/

namespace IcefallDB

variable {β φ : Type}

/-! ## What programs do to the chain -/

section Programs

open Storage

variable {α γ : Type}

theorem wp_quiet {script : Program β φ α} (emits : script.Emits StorageEffect.Quiet)
    (before : Storage β φ) :
    script.Wp Extends (fun _ after => after.manifests = before.manifests ∧
      after.pointer = before.pointer) before := by
  refine Script.wp_of_emits emits (fun effect quiet state => extends_of_quiet quiet state) ?_ ⟨rfl, rfl⟩
  intro effect state quiet same
  obtain ⟨manifests_eq, pointer_eq⟩ := manifests_perform_quiet quiet state
  exact ⟨manifests_eq.trans same.1, pointer_eq.trans same.2⟩

variable {before : Storage β φ}

/-- A part of a program that leaves manifest files and the pointer alone. -/
theorem wp_quiet_bind {script : Program β φ α} {next : α → Program β φ γ}
    {post : γ → Storage β φ → Prop} (emits : script.Emits StorageEffect.Quiet)
    (rest : ∀ value after, script.Ends before value after → after.manifests = before.manifests →
      after.pointer = before.pointer → (next value).Wp Extends post after) :
    (script >>= next).Wp Extends post before :=
  Script.wp_bind ((wp_quiet emits before).mono fun value after run same =>
    rest value after run same.1 same.2)

variable (decode : β → Except String φ)

end Programs

/-! ## Commits -/

namespace Writer

open Storage

variable {R : Type}

variable {before : TableStorage R}

variable (writer : Writer R)

/-- A chain without manifest files above a sequence, ready for the next one. -/
structure ReadyAfter (latestSeq : Nat) (storage : TableStorage R) : Prop where
  chained : storage.Chained
  bounded : storage.UpTo latestSeq

variable {latestSeq : Nat}

theorem ReadyAfter.of_eq {after : TableStorage R} (ready : ReadyAfter latestSeq before)
    (manifests_eq : after.manifests = before.manifests) : ReadyAfter latestSeq after :=
  ⟨ready.chained.of_manifests_eq manifests_eq, by
    simpa only [UpTo, manifests_eq] using ready.bounded⟩

variable (choices : Choices R)

/-- A step of a commit on its own files. -/
theorem ReadyAfter.bind {α γ : Type} (current : Manifest) {script : TableProgram R α}
    {next : α → TableProgram R γ} {post : γ → TableStorage R → Prop}
    (ready : ReadyAfter latestSeq before)
    (emits : script.Emits (StorageEffect.Within (Touches choices (latestSeq + 1) current)))
    (rest : ∀ value after, script.Ends before value after → ReadyAfter latestSeq after →
      (next value).Wp Extends post after) : (script >>= next).Wp Extends post before :=
  wp_quiet_bind (emits.mono fun _ inside => inside.quiet) fun value after run manifests_eq _ =>
    rest value after run (ready.of_eq manifests_eq)

end Writer

/-! ## Compactions and collections -/

section Maintenance

open Storage

variable {R : Type}

variable {before : TableStorage R}

theorem Compactor.emits_rollbackCompaction (choices : Choices R) (previousSchemaId : Nat)
    (newSchemaId : Option Nat) (staged : List String) :
    (Compactor.rollbackCompaction previousSchemaId newSchemaId
      (TableAction.stagingNotes choices staged)).Emits StorageEffect.Quiet := by
  obtain ⟨record, folds, records⟩ : ∃ record,
      (∀ effects, Writer.RollbackInfo.ofEffects (R := R) effects = effects.foldl record {}) ∧
        ∀ info entry, record info (.note entry) = info.record entry :=
    ⟨_, fun _ => rfl, fun _ _ => rfl⟩
  have noted : ∀ info : Writer.RollbackInfo, info.sequence = 0 →
      ((staged.map fun path => StorageEffect.note (RollbackNote.stagedFile path)).foldl record
        info).sequence = 0 := by
    induction staged with
    | nil => exact fun info unnumbered => unnumbered
    | cons path staged ih =>
        intro info unnumbered
        apply ih
        rw [records]
        exact unnumbered
  have unnumbered : (Writer.RollbackInfo.ofEffects
      (TableAction.stagingNotes choices staged)).sequence = 0 := by
    rw [folds]
    apply noted (record {} (.note (.intent choices.txnId)))
    rw [records]
    rfl
  refine Script.Emits.ite (fun _ => Script.Emits.each fun _ _ => Script.Emits.emit trivial)
    fun _ => ?_
  rw [unnumbered]
  refine Script.Emits.bind (Script.Emits.provided fun _ => Script.Emits.emit trivial) fun _ => ?_
  refine Script.Emits.bind (Script.Emits.each fun _ _ => Script.Emits.emit trivial) fun _ => ?_
  refine Script.Emits.bind (Script.Emits.provided (by rintro ⟨⟩)) fun _ => ?_
  refine Script.Emits.bind (Script.Emits.each fun _ _ => Script.Emits.emit trivial) fun _ => ?_
  exact Script.Emits.each fun _ _ => Script.Emits.emit trivial

end Maintenance

/-! ## Runs -/

namespace TableAction

open Storage

variable {R : Type}

/-- The table of integers with its schema, before anything is committed. -/
def created : TableStorage Int :=
  { Integers.emptyTable with files := AList.insert (schemaFilename 1) (.schema 1) ∅ }

end TableAction

end IcefallDB
