import Mathlib.Data.List.Basic

/-!
# Runs of a machine

A deterministic machine reacts to one event at a time.  A condition on the events of a run is a
condition on each event in the state it finds; an invariant that every event under the condition
keeps holds after the whole run.
-/

namespace Run

variable {σ ε : Type} (step : σ → ε → σ)

/-- The state after a list of events. -/
def after (start : σ) (events : List ε) : σ :=
  events.foldl step start

/-- Every event of a list meets a condition on the state it finds. -/
def Along (condition : σ → ε → Prop) : σ → List ε → Prop
  | _, [] => True
  | state, event :: events => condition state event ∧ Along condition (step state event) events

variable {step}

@[simp]
theorem after_nil (start : σ) : after step start [] = start :=
  rfl

@[simp]
theorem after_cons (start : σ) (event : ε) (events : List ε) :
    after step start (event :: events) = after step (step start event) events :=
  rfl

theorem after_append (start : σ) (first second : List ε) :
    after step start (first ++ second) = after step (after step start first) second :=
  List.foldl_append

theorem along_append {condition : σ → ε → Prop} {start : σ} {first second : List ε} :
    Along step condition start (first ++ second) ↔
      Along step condition start first ∧ Along step condition (after step start first) second := by
  induction first generalizing start with
  | nil => exact (iff_of_eq (true_and _)).symm
  | cons event first ih => simp only [List.cons_append, Along, ih, after_cons, and_assoc]

/-- What every event keeps under a condition, a run along the condition keeps. -/
theorem invariant {holds : σ → Prop} {condition : σ → ε → Prop}
    (keeps : ∀ state event, holds state → condition state event → holds (step state event))
    {start : σ} (initial : holds start) {events : List ε}
    (along : Along step condition start events) : holds (after step start events) := by
  induction events generalizing start with
  | nil => exact initial
  | cons event events ih =>
      obtain ⟨first, rest⟩ := along
      exact ih (keeps start event initial first) rest

/-- The events of two scripts, each in its own order. -/
inductive Interleaves : List ε → List ε → List ε → Prop
  | nil : Interleaves [] [] []
  | left {event : ε} {left right events : List ε} (rest : Interleaves left right events) :
      Interleaves (event :: left) right (event :: events)
  | right {event : ε} {left right events : List ε} (rest : Interleaves left right events) :
      Interleaves left (event :: right) (event :: events)

theorem Interleaves.symm {left right events : List ε} (interleaves : Interleaves left right events) :
    Interleaves right left events := by
  induction interleaves with
  | nil => exact .nil
  | left _ ih => exact .right ih
  | right _ ih => exact .left ih

/-- A script interleaved with nothing. -/
theorem Interleaves.eq_of_nil {left events : List ε} (interleaves : Interleaves left [] events) :
    events = left := by
  generalize nothing : ([] : List ε) = right at interleaves
  induction interleaves with
  | nil => rfl
  | left _ ih => rw [ih nothing]
  | right _ _ => cases nothing

/-- Interleavings of two scripts of two events: one script comes first, or both first events come
before both second ones. -/
theorem Interleaves.of_pairs {first second first' second' : ε} {events : List ε}
    (interleaves : Interleaves [first, second] [first', second'] events) :
    events = [first, second, first', second'] ∨ events = [first', second', first, second] ∨
      ∃ firsts seconds, (firsts = [first, first'] ∨ firsts = [first', first]) ∧
        (seconds = [second, second'] ∨ seconds = [second', second]) ∧
          events = firsts ++ seconds := by
  cases interleaves with
  | left rest =>
      cases rest with
      | left rest => exact .inl (by rw [rest.symm.eq_of_nil])
      | right rest =>
          refine .inr (.inr ⟨[first, first'], _, .inl rfl, ?_, rfl⟩)
          cases rest with
          | left rest => exact .inl (by rw [rest.symm.eq_of_nil])
          | right rest => exact .inr (by rw [rest.eq_of_nil])
  | right rest =>
      cases rest with
      | right rest => exact .inr (.inl (by rw [rest.eq_of_nil]))
      | left rest =>
          refine .inr (.inr ⟨[first', first], _, .inr rfl, ?_, rfl⟩)
          cases rest with
          | left rest => exact .inl (by rw [rest.symm.eq_of_nil])
          | right rest => exact .inr (by rw [rest.eq_of_nil])

end Run
