import IcefallDB.Lib.Script

/-!
# Effects in context

What the effects of a complete run do, each in the state it acts on.  `Wp` is the weakest
precondition of a script for two things at once: every effect of the run is permitted where it is
performed, and the run ends as required.
-/

namespace Script

variable {σ ε err α β : Type} [Effect ε σ] {allowed : σ → ε → Prop}

/-- Each effect of a list is allowed in the state it acts on. -/
def Permitted (allowed : σ → ε → Prop) : List ε → σ → Prop
  | [], _ => True
  | effect :: effects, state =>
      allowed state effect ∧ Permitted allowed effects (Effect.perform effect state)

theorem permitted_append {first second : List ε} {state : σ} :
    Permitted allowed (first ++ second) state ↔
      Permitted allowed first state ∧ Permitted allowed second (performAll first state) := by
  induction first generalizing state with
  | nil => simp [Permitted]
  | cons effect effects ih => simp [Permitted, ih, and_assoc]

/-- A permitted effect is allowed in the state that the effects before it leave. -/
theorem Permitted.at {past future : List ε} {effect : ε} {state : σ}
    (permitted : Permitted allowed (past ++ effect :: future) state) :
    allowed (performAll past state) effect :=
  (permitted_append.mp permitted).2.1

/-- Effects that are allowed in every state are permitted. -/
theorem permitted_of_forall {effects : List ε} {state : σ}
    (everywhere : ∀ effect ∈ effects, ∀ state, allowed state effect) :
    Permitted allowed effects state := by
  induction effects generalizing state with
  | nil => trivial
  | cons effect effects ih =>
      refine ⟨everywhere effect List.mem_cons_self state, ih fun other member => ?_⟩
      exact everywhere other (List.mem_cons_of_mem effect member)

/-- Along a complete run from the state every effect is allowed where it is performed, and the run
ends as `post` says. -/
def Wp (allowed : σ → ε → Prop) (post : α → σ → Prop) (script : Script σ ε err α) (before : σ) :
    Prop :=
  ∀ value after, script.Ends before value after →
    Permitted allowed (script before).1 before ∧ post value after

variable {post : α → σ → Prop} {script : Script σ ε err α} {before : σ}

theorem Wp.mono {weaker : α → σ → Prop} (wp : script.Wp allowed post before)
    (implies : ∀ value after, script.Ends before value after → post value after →
      weaker value after) : script.Wp allowed weaker before :=
  fun value after run => ⟨(wp value after run).1, implies value after run (wp value after run).2⟩

theorem wp_bind {post : β → σ → Prop} {next : α → Script σ ε err β}
    (wp : script.Wp allowed (fun value middle => (next value).Wp allowed post middle) before) :
    (script >>= next).Wp allowed post before := by
  intro result after run
  obtain ⟨value, middle, first, second⟩ := ends_bind.mp run
  obtain ⟨first_permitted, rest⟩ := wp value middle first
  obtain ⟨second_permitted, holds⟩ := rest result after second
  refine ⟨?_, holds⟩
  have effects_eq : ((script >>= next) before).1 = (script before).1 ++ (next value middle).1 := by
    simp only [Bind.bind, andThen, first.1, first.2]
  rw [effects_eq, permitted_append, first.2]
  exact ⟨first_permitted, second_permitted⟩

/-- A script whose effects are allowed everywhere and keep a property. -/
theorem wp_of_emits {property : σ → Prop} {quiet : ε → Prop} (emits : script.Emits quiet)
    (everywhere : ∀ effect, quiet effect → ∀ state, allowed state effect)
    (keeps : ∀ effect state, quiet effect → property state → property (Effect.perform effect state))
    (start : property before) : script.Wp allowed (fun _ after => property after) before := by
  intro value after run
  refine ⟨permitted_of_forall fun effect member => ?_, emits.ends keeps start run⟩
  exact everywhere effect (emits before effect member)

end Script
