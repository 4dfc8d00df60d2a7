import IcefallDB.Lib.Script
import Mathlib.Logic.Function.Basic

/-!
# Programs on a family of states

Several states live side by side under keys.  A program on the state under one key acts on the family
and leaves the states under the other keys alone.
-/

/-- An effect on the state under one key. -/
structure KeyedEffect (ι ε : Type) where
  key : ι
  effect : ε

section Family

variable {ι σ ε : Type} [DecidableEq ι] [Effect ε σ]

instance : Effect (KeyedEffect ι ε) (ι → σ) where
  perform effect states :=
    Function.update states effect.key (Effect.perform effect.effect (states effect.key))

namespace Script

variable {err α : Type}

theorem performAll_keyed (key : ι) (effects : List ε) (states : ι → σ) :
    performAll (effects.map (KeyedEffect.mk key)) states =
      Function.update states key (performAll effects (states key)) := by
  induction effects generalizing states with
  | nil => simp
  | cons effect effects ih =>
      rw [List.map_cons, performAll_cons, ih]
      simp [Effect.perform]

/-- Run a script on the state under a key. -/
def onKey (key : ι) (script : Script σ ε err α) : Script (ι → σ) (KeyedEffect ι ε) err α :=
  fun states => ((script (states key)).1.map (KeyedEffect.mk key), (script (states key)).2)

variable {key : ι} {script : Script σ ε err α} {before after : ι → σ} {value : α}

theorem ends_onKey :
    (script.onKey key).Ends before value after ↔
      ∃ state, script.Ends (before key) value state ∧ Function.update before key state = after := by
  simp only [Ends, onKey, performAll_keyed]
  constructor
  · rintro ⟨outcome, rfl⟩
    exact ⟨_, ⟨outcome, rfl⟩, rfl⟩
  · rintro ⟨_, ⟨outcome, rfl⟩, rfl⟩
    exact ⟨outcome, rfl⟩

theorem crash_onKey (before : ι → σ) (steps : Nat) :
    (script.onKey key).crash before steps =
      Function.update before key (script.crash (before key) steps) := by
  rw [crash, onKey, ← List.map_take, performAll_keyed]
  rfl

/-- What holds of the state under the key at every crash point, and of the others from the start. -/
theorem always_onKey (property : ι → σ → Prop) (holds : ∀ other, property other (before other))
    (always : script.Always (property key) (before key)) :
    (script.onKey key).Always (fun states => ∀ other, property other (states other)) before := by
  intro steps other
  rw [crash_onKey]
  by_cases same : other = key
  · subst same
    rw [Function.update_self]
    exact always steps
  · rw [Function.update_of_ne same]
    exact holds other

end Script

end Family
