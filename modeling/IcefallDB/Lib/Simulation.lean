import IcefallDB.Lib.Script

/-!
# Two programs side by side

Two scripts are alike if they perform the same effects from every state and end the same way, with
related values if they succeed.
-/

namespace Script

variable {σ ε err α β γ δ ι : Type} [Effect ε σ]

/-- From every state, both scripts perform the same effects, and both fail with the same error or
both end with related values. -/
def Alike (related : α → β → Prop) (first : Script σ ε err α) (second : Script σ ε err β) : Prop :=
  ∀ before, (first before).1 = (second before).1 ∧
    ((∃ failure, (first before).2 = .error failure ∧ (second before).2 = .error failure) ∨
      ∃ left right, (first before).2 = .ok left ∧ (second before).2 = .ok right ∧
        related left right)

omit [Effect ε σ] in
theorem Alike.refl (script : Script σ ε err α) : Alike Eq script script := by
  intro before
  refine ⟨rfl, ?_⟩
  cases outcome : (script before).2 with
  | error failure => exact .inl ⟨failure, rfl, rfl⟩
  | ok value => exact .inr ⟨value, value, rfl, rfl, rfl⟩

theorem Alike.pure {related : α → β → Prop} {left : α} {right : β} (holds : related left right) :
    Alike related (Pure.pure left : Script σ ε err α) (Pure.pure right) := by
  intro before
  exact ⟨rfl, .inr ⟨left, right, rfl, rfl, holds⟩⟩

theorem Alike.bind {related : α → β → Prop} {after : γ → δ → Prop} {first : Script σ ε err α}
    {second : Script σ ε err β} {next : α → Script σ ε err γ} {next' : β → Script σ ε err δ}
    (alike : Alike related first second)
    (later : ∀ left right, related left right → Alike after (next left) (next' right)) :
    Alike after (first >>= next) (second >>= next') := by
  intro before
  obtain ⟨effects, ⟨failure, failed, failed'⟩ | ⟨left, right, ended, ended', holds⟩⟩ := alike before
  · rw [bind_of_error failed, bind_of_error failed']
    exact ⟨effects, .inl ⟨failure, rfl, rfl⟩⟩
  · rw [bind_of_ends ⟨ended, rfl⟩, bind_of_ends ⟨ended', rfl⟩, effects]
    obtain ⟨effects', outcomes⟩ := later left right holds (performAll (second before).1 before)
    exact ⟨by rw [effects'], outcomes⟩

/-- Induction along two loops over one list. -/
theorem Alike.fold {related : α → β → Prop} {body : α → ι → Script σ ε err α}
    {body' : β → ι → Script σ ε err β} {items : List ι}
    (step : ∀ left right item, related left right →
      Alike related (body left item) (body' right item))
    {left : α} {right : β} (start : related left right) :
    Alike related (Script.fold body left items) (Script.fold body' right items) := by
  induction items generalizing left right with
  | nil => exact Alike.pure start
  | cons item items ih => exact Alike.bind (step left right item start) fun _ _ holds => ih holds

/-- Alike scripts are equal if their values are only used where they agree. -/
theorem Alike.bind_pure_eq {related : α → β → Prop} {first : Script σ ε err α}
    {second : Script σ ε err β} {view : α → γ} {view' : β → γ} (alike : Alike related first second)
    (agree : ∀ left right, related left right → view left = view' right) :
    (first >>= fun value => Pure.pure (view value)) =
      second >>= fun value => (Pure.pure (view' value) : Script σ ε err γ) := by
  funext before
  obtain ⟨effects, ⟨failure, failed, failed'⟩ | ⟨left, right, ended, ended', holds⟩⟩ := alike before
  · rw [bind_of_error failed, bind_of_error failed', effects]
  · rw [bind_of_ends ⟨ended, rfl⟩, bind_of_ends ⟨ended', rfl⟩, effects, agree left right holds]

end Script
