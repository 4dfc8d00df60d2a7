import IcefallDB.Lib.Script

/-!
# Crash conditions and postconditions

A judgement about a program started in a state: a crash condition holds at every crash point, those of
a failing run included, and a complete run ends as a postcondition says.  Its rules follow the way a
program is put together.
-/

namespace Script

variable {σ ε err α β : Type} [Effect ε σ] {crash : σ → Prop} {before : σ}

/-- Every crash point satisfies `crash`, and a complete run ends as `post` says. -/
structure Safe (crash : σ → Prop) (post : α → σ → Prop) (script : Script σ ε err α) (before : σ) :
    Prop where
  always : script.Always crash before
  ends : ∀ value after, script.Ends before value after → post value after

theorem Safe.mono {post weaker : α → σ → Prop} {wider : σ → Prop} {script : Script σ ε err α}
    (safe : script.Safe crash post before) (crash_implies : ∀ state, crash state → wider state)
    (implies : ∀ value after, post value after → weaker value after) :
    script.Safe wider weaker before where
  always := safe.always.mono crash_implies
  ends value after run := implies value after (safe.ends value after run)

variable {post : α → σ → Prop} {script : Script σ ε err α}

theorem Safe.weaken {weaker : α → σ → Prop} (safe : script.Safe crash post before)
    (implies : ∀ value after, post value after → weaker value after) :
    script.Safe crash weaker before :=
  safe.mono (fun _ => id) implies

/-- The result of a complete run may be used along with the postcondition. -/
theorem Safe.strengthen {post : α → σ → Prop} {script : Script σ ε err α}
    (safe : script.Safe crash post before) :
    script.Safe crash (fun value after => script.Ends before value after ∧ post value after)
      before where
  always := safe.always
  ends value after run := ⟨run, safe.ends value after run⟩

theorem safe_pure {value : α} (start : crash before) (holds : post value before) :
    (pure value : Script σ ε err α).Safe crash post before := by
  constructor
  · exact always_pure.mpr start
  · intro result after run
    obtain ⟨rfl, rfl⟩ := ends_pure.mp run
    exact holds

theorem safe_read {post : σ → σ → Prop} (start : crash before) (holds : post before before) :
    (read : Script σ ε err σ).Safe crash post before := by
  constructor
  · exact always_read.mpr start
  · intro result after run
    obtain ⟨rfl, rfl⟩ := ends_read.mp run
    exact holds

theorem safe_fail {failure : err} (start : crash before) :
    (fail failure : Script σ ε err α).Safe crash post before := by
  constructor
  · exact always_fail.mpr start
  · intro result after run
    exact (ends_fail.mp run).elim

theorem safe_lift {outcome : Except err α} (start : crash before)
    (holds : ∀ value, outcome = .ok value → post value before) :
    (lift outcome : Script σ ε err α).Safe crash post before := by
  constructor
  · exact always_lift.mpr start
  · intro result after run
    obtain ⟨result_eq, rfl⟩ := ends_lift.mp run
    exact holds result result_eq

theorem safe_ensure {post : Unit → σ → Prop} {condition : Bool} {failure : err} (start : crash before)
    (holds : condition = true → post () before) :
    (ensure condition failure : Script σ ε err Unit).Safe crash post before := by
  constructor
  · exact always_ensure.mpr start
  · intro result after run
    obtain ⟨condition_holds, rfl⟩ := ends_ensure.mp run
    exact holds condition_holds

theorem safe_emit {post : Unit → σ → Prop} {effect : ε} (start : crash before)
    (performed : crash (Effect.perform effect before))
    (holds : post () (Effect.perform effect before)) :
    (emit effect : Script σ ε err Unit).Safe crash post before := by
  constructor
  · exact always_emit.mpr ⟨start, performed⟩
  · intro result after run
    obtain rfl := ends_emit.mp run
    exact holds

/-- Sequential composition: the postcondition of the first part is what the second part starts
from. -/
theorem safe_bind {post : β → σ → Prop} {next : α → Script σ ε err β}
    (safe : script.Safe crash (fun value middle => (next value).Safe crash post middle) before) :
    (script >>= next).Safe crash post before := by
  constructor
  · rw [always_bind]
    constructor
    · exact safe.always
    · intro value middle run
      exact (safe.ends value middle run).always
  · intro result after run
    obtain ⟨value, middle, first, second⟩ := ends_bind.mp run
    exact (safe.ends value middle first).ends result after second

theorem safe_ite {condition : Prop} [Decidable condition] {first second : Script σ ε err α}
    (holds : condition → first.Safe crash post before)
    (fails : ¬condition → second.Safe crash post before) :
    (if condition then first else second).Safe crash post before := by
  split
  · next condition_holds => exact holds condition_holds
  · next condition_fails => exact fails condition_fails

/-- A failure that is caught leaves a crash point. -/
theorem safe_attempt {post : Except err α → σ → Prop}
    (safe : script.Safe crash (fun value after => post (.ok value) after) before)
    (failed : ∀ failure after, crash after → post (.error failure) after) :
    script.attempt.Safe crash post before := by
  constructor
  · exact safe.always
  · intro outcome after run
    obtain ⟨outcome_eq, after_eq⟩ := ends_attempt.mp run
    cases outcome with
    | ok value => exact safe.ends value after ⟨outcome_eq, after_eq⟩
    | error failure =>
        apply failed
        rw [← after_eq]
        exact safe.always.final

/-- A program all of whose effects keep a property, which implies the crash condition. -/
theorem safe_of_emits {property : σ → Prop} {allowed : ε → Prop} {script : Script σ ε err α}
    (emits : script.Emits allowed)
    (keeps : ∀ effect state, allowed effect → property state →
      property (Effect.perform effect state))
    (implies : ∀ state, property state → crash state) (start : property before) :
    script.Safe crash (fun _ after => property after) before where
  always := (emits.always keeps start).mono implies
  ends _ _ run := emits.ends keeps start run

/-- A cleanup all of whose effects keep the crash condition. -/
theorem safe_onError {allowed : ε → Prop} {body : Script σ ε err α}
    {cleanup : List ε → Script σ ε err Unit} (safe : body.Safe crash post before)
    (emits : ∀ performed, (cleanup performed).Emits allowed)
    (keeps : ∀ effect state, allowed effect → crash state → crash (Effect.perform effect state)) :
    (body.onError cleanup).Safe crash post before := by
  constructor
  · intro steps
    rw [Script.crash]
    simp only [onError]
    cases outcome : (body before).2 with
    | ok value => exact safe.always steps
    | error failure =>
        rw [List.take_append, performAll_append]
        apply performAll_keeps _ (safe.always steps)
        intro effect member state holds
        exact keeps effect state (emits _ _ effect (List.mem_of_mem_take member)) holds
  · intro value after run
    exact safe.ends value after (ends_onError.mp run)

end Script
