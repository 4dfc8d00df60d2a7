import Mathlib.Data.List.Basic
import Mathlib.Logic.Relation
import Mathlib.Order.Defs.Unbundled

/-!
# Programs with durable effects

A `Script` reads a state, performs a finite list of effects on it and ends with a value or an
error.  Every prefix of the effect list is a crash point: a crash loses the program counter, never
an effect already performed.  `Ends` describes complete runs, `Relates` what they do to the state,
`Always` what holds in every state a crash can leave and `Emits` which effects occur at all; each
decomposes along sequential composition.
-/

/-- An effect acts on the states of `σ`. -/
class Effect (ε : Type) (σ : outParam Type) where
  /-- The state after performing one effect. -/
  perform : ε → σ → σ

/-- A program that reads a state and returns the effects performed, in order, and its result. -/
def Script (σ ε err α : Type) : Type :=
  σ → List ε × Except err α

namespace Script

variable {σ ε err α β γ : Type} [Effect ε σ]

omit [Effect ε σ] in
theorem except_bind_eq_ok {first : Except err α} {next : α → Except err β} {result : β} :
    (first >>= next) = .ok result ↔ ∃ value, first = .ok value ∧ next value = .ok result := by
  cases first <;> simp [Bind.bind, Except.bind]

/-- Perform a list of effects from left to right. -/
def performAll (effects : List ε) (state : σ) : σ :=
  effects.foldl (fun current effect => Effect.perform effect current) state

@[simp]
theorem performAll_nil (state : σ) : performAll ([] : List ε) state = state :=
  rfl

@[simp]
theorem performAll_cons (effect : ε) (effects : List ε) (state : σ) :
    performAll (effect :: effects) state = performAll effects (Effect.perform effect state) :=
  rfl

@[simp]
theorem performAll_append (first second : List ε) (state : σ) :
    performAll (first ++ second) state = performAll second (performAll first state) := by
  simp [performAll, List.foldl_append]

variable {property : σ → Prop} {before : σ}

/-- What each effect of a list keeps, the list keeps. -/
theorem performAll_keeps {effects : List ε}
    (keeps : ∀ effect ∈ effects, ∀ state, property state → property (Effect.perform effect state))
    (start : property before) : property (performAll effects before) := by
  induction effects generalizing before with
  | nil => exact start
  | cons effect effects ih =>
      apply ih fun other member => keeps other (List.mem_cons_of_mem effect member)
      exact keeps effect List.mem_cons_self before start

/-- Sequential composition: the continuation reads the state its predecessor left. -/
def andThen (first : Script σ ε err α) (next : α → Script σ ε err β) : Script σ ε err β :=
  fun state =>
    match (first state).2 with
    | .error failure => ((first state).1, .error failure)
    | .ok value =>
        let rest := next value (performAll (first state).1 state)
        ((first state).1 ++ rest.1, rest.2)

instance : Monad (Script σ ε err) where
  pure value := fun _ => ([], .ok value)
  bind := andThen

theorem pure_bind (value : α) (next : α → Script σ ε err β) :
    (pure value >>= next : Script σ ε err β) = next value := by
  funext state
  simp [bind, pure, andThen]

variable {first : Script σ ε err α} {next : α → Script σ ε err β} {value : α}

/-- What performs nothing hands its value on. -/
theorem bind_of_silent (silent : first before = ([], .ok value)) :
    (first >>= next) before = next value before := by
  simp [bind, andThen, silent]

theorem bind_assoc (first : Script σ ε err α) (second : α → Script σ ε err β)
    (third : β → Script σ ε err γ) :
    first >>= second >>= third = first >>= fun value => second value >>= third := by
  funext state
  simp only [bind, andThen]
  cases outcome : (first state).2 with
  | error failure => simp
  | ok value =>
      cases later : (second value (performAll (first state).1 state)).2 <;> simp [later]

/-- Perform a single effect. -/
def emit (effect : ε) : Script σ ε err Unit :=
  fun _ => ([effect], .ok ())

/-- Read the current state. -/
def read : Script σ ε err σ :=
  fun state => ([], .ok state)

/-- Stop with an error. -/
def fail (failure : err) : Script σ ε err α :=
  fun _ => ([], .error failure)

/-- Lift a pure fallible computation. -/
def lift (result : Except err α) : Script σ ε err α :=
  fun _ => ([], result)

theorem lift_ok_bind (value : α) (next : α → Script σ ε err β) (before : σ) :
    (lift (.ok value) >>= next) before = next value before := by
  simp [bind, andThen, lift]

/-- Stop with an error unless the condition holds. -/
def ensure (condition : Bool) (failure : err) : Script σ ε err Unit :=
  if condition then pure () else fail failure

/-- Run a script only under a condition. -/
def provided (condition : Bool) (script : Script σ ε err Unit) : Script σ ε err Unit :=
  if condition then script else pure ()

/-- Run a script and hand its outcome on, be it a value or an error. -/
def attempt (script : Script σ ε err α) : Script σ ε err (Except err α) :=
  fun state => ((script state).1, .ok (script state).2)

/-- Run a cleanup when the body fails, then report the body's error.  The cleanup knows what the
body performed; its own result is discarded. -/
def onError (body : Script σ ε err α) (cleanup : List ε → Script σ ε err Unit) :
    Script σ ε err α :=
  fun state =>
    match (body state).2 with
    | .ok value => ((body state).1, .ok value)
    | .error failure =>
        ((body state).1 ++ (cleanup (body state).1 (performAll (body state).1 state)).1,
          .error failure)

/-- Run a script once for each element of a list, from left to right. -/
def each (body : α → Script σ ε err Unit) : List α → Script σ ε err Unit
  | [] => pure ()
  | item :: items => do
      body item
      each body items

/-- Thread a value through a list, from left to right. -/
def fold (body : β → α → Script σ ε err β) : β → List α → Script σ ε err β
  | value, [] => pure value
  | value, item :: items => do
      let next ← body value item
      fold body next items

/-- Collect the results of a script run on each element of a list. -/
def collect (body : α → Script σ ε err β) : List α → Script σ ε err (List β)
  | [] => pure []
  | item :: items => do
      let value ← body item
      let values ← collect body items
      pure (value :: values)

theorem each_append (body : α → Script σ ε err Unit) (first second : List α) :
    each body (first ++ second) = each body first >>= fun _ => each body second := by
  induction first with
  | nil => rw [List.nil_append, each, pure_bind]
  | cons item items ih =>
      rw [List.cons_append, each, each, bind_assoc]
      congr 1
      funext _
      exact ih

/-- Emitting an effect for each element of a list performs these effects. -/
theorem each_emit (effect : α → ε) (items : List α) (before : σ) :
    each (fun item => (emit (effect item) : Script σ ε err Unit)) items before =
      (items.map effect, .ok ()) := by
  induction items generalizing before with
  | nil => rfl
  | cons item items ih => simp [each, Bind.bind, andThen, emit, ih]

/-- Computing a value from the result performs nothing. -/
theorem effects_bind_pure (script : Script σ ε err α) (next : α → β) (before : σ) :
    ((script >>= fun value => (pure (next value) : Script σ ε err β)) before).1 =
      (script before).1 := by
  simp only [bind, andThen]
  cases (script before).2 <;> simp [pure]

/-! ## Complete runs -/

/-- The script, started in `before`, ends with `value` in state `after`. -/
def Ends (script : Script σ ε err α) (before : σ) (value : α) (after : σ) : Prop :=
  (script before).2 = .ok value ∧ performAll (script before).1 before = after

/-- The state in which a script stops, whatever its result. -/
def final (script : Script σ ε err α) (before : σ) : σ :=
  performAll (script before).1 before

variable {script : Script σ ε err α} {after : σ}

theorem Ends.deterministic {after' : σ} {value' : α} (run : script.Ends before value after)
    (run' : script.Ends before value' after') : value = value' ∧ after = after' := by
  obtain ⟨result, state⟩ := run
  obtain ⟨result', state'⟩ := run'
  refine ⟨?_, state.symm.trans state'⟩
  have same := result.symm.trans result'
  exact Except.ok.inj same

/-- What follows a complete run adds to its effects. -/
theorem bind_of_ends {middle : σ} (run : first.Ends before value middle) :
    (first >>= next) before = ((first before).1 ++ (next value middle).1, (next value middle).2) := by
  obtain ⟨outcome, rfl⟩ := run
  simp [bind, andThen, outcome]

variable {failure : err}

/-- What fails is not followed by anything. -/
theorem bind_of_error (failed : (first before).2 = .error failure) :
    (first >>= next) before = ((first before).1, .error failure) := by
  simp [bind, andThen, failed]

/-- A script that succeeds ends in its final state. -/
theorem exists_ends_of_isOk (succeeds : (script before).2.isOk = true) :
    ∃ value, script.Ends before value (script.final before) := by
  cases outcome : (script before).2 with
  | error failure =>
      rw [outcome] at succeeds
      cases succeeds
  | ok value => exact ⟨value, outcome, rfl⟩

variable {result : α}

theorem ends_of_silent (silent : script before = ([], .ok value)) :
    script.Ends before result after ↔ value = result ∧ before = after := by
  simp [Ends, silent]

theorem ends_bind_of_silent {result : β} (silent : script before = ([], .ok value)) :
    (script >>= next).Ends before result after ↔ (next value).Ends before result after := by
  simp [Ends, bind_of_silent silent]

theorem not_ends_of_error {effects : List ε} (failed : script before = (effects, .error failure)) :
    ¬script.Ends before result after := by
  simp [Ends, failed]

@[simp]
theorem ends_pure :
    (pure value : Script σ ε err α).Ends before result after ↔ value = result ∧ before = after := by
  simp [Ends, pure]

@[simp]
theorem ends_bind {result : β} :
    (script >>= next).Ends before result after ↔
      ∃ value middle, script.Ends before value middle ∧ (next value).Ends middle result after := by
  simp only [Ends, bind, andThen]
  cases outcome : (script before).2 with
  | error failure => simp
  | ok value => simp

variable {effect : ε}

@[simp]
theorem ends_emit {result : Unit} :
    (emit effect : Script σ ε err Unit).Ends before result after ↔
      Effect.perform effect before = after := by
  simp [Ends, emit]

@[simp]
theorem ends_read {result : σ} :
    (read : Script σ ε err σ).Ends before result after ↔ before = result ∧ before = after := by
  simp [Ends, read]

@[simp]
theorem ends_fail : (fail failure : Script σ ε err α).Ends before result after ↔ False := by
  simp [Ends, fail]

variable {outcome : Except err α}

@[simp]
theorem ends_lift :
    (lift outcome : Script σ ε err α).Ends before result after ↔
      outcome = .ok result ∧ before = after := by
  simp [Ends, lift]

variable {condition : Bool}

@[simp]
theorem ends_ensure {result : Unit} :
    (ensure condition failure : Script σ ε err Unit).Ends before result after ↔
      condition = true ∧ before = after := by
  cases condition <;> simp [ensure]

@[simp]
theorem ends_provided {script : Script σ ε err Unit} {result : Unit} :
    (provided condition script).Ends before result after ↔
      if condition then script.Ends before result after else before = after := by
  cases condition <;> simp [provided]

@[simp]
theorem ends_onError {body : Script σ ε err α} {cleanup : List ε → Script σ ε err Unit} :
    (body.onError cleanup).Ends before result after ↔ body.Ends before result after := by
  simp only [Ends, onError]
  cases outcome : (body before).2 <;> simp

@[simp]
theorem ends_attempt :
    script.attempt.Ends before outcome after ↔
      (script before).2 = outcome ∧ script.final before = after := by
  simp [Ends, attempt, final]

theorem ends_ite {condition : Prop} [Decidable condition] {second : Script σ ε err α} :
    (if condition then first else second).Ends before result after ↔
      (condition ∧ first.Ends before result after) ∨
        (¬condition ∧ second.Ends before result after) := by
  by_cases holds : condition <;> simp [holds]

variable {body : α → Script σ ε err Unit}

@[simp]
theorem ends_each_nil {result : Unit} :
    (each body []).Ends before result after ↔ before = after := by
  simp [each]

variable {items : List α}

@[simp]
theorem ends_each_cons {item : α} {result : Unit} :
    (each body (item :: items)).Ends before result after ↔
      ∃ middle, (body item).Ends before () middle ∧ (each body items).Ends middle () after := by
  simp only [each, ends_bind]
  constructor
  · rintro ⟨⟨⟩, middle, first, rest⟩
    exact ⟨middle, first, rest⟩
  · rintro ⟨middle, first, rest⟩
    exact ⟨(), middle, first, rest⟩

@[simp]
theorem ends_collect_nil {body : α → Script σ ε err β} {result : List β} :
    (collect body []).Ends before result after ↔ [] = result ∧ before = after := by
  simp [collect]

@[simp]
theorem ends_collect_cons {body : α → Script σ ε err β} {item : α} {result : List β} :
    (collect body (item :: items)).Ends before result after ↔
      ∃ value middle, (body item).Ends before value middle ∧
        ∃ values, (collect body items).Ends middle values after ∧ value :: values = result := by
  simp only [collect, ends_bind, ends_pure]
  constructor
  · rintro ⟨value, middle, first, values, last, rest, rfl, rfl⟩
    exact ⟨value, middle, first, values, rest, rfl⟩
  · rintro ⟨value, middle, first, values, rest, rfl⟩
    exact ⟨value, middle, first, values, after, rest, rfl, rfl⟩

/-! ## Crash points -/

/-- The state a crash leaves after the first `steps` effects of a script. -/
def crash (script : Script σ ε err α) (before : σ) (steps : Nat) : σ :=
  performAll ((script before).1.take steps) before

/-- `property` holds in every state a crash of the script can leave, the final state included. -/
def Always (property : σ → Prop) (script : Script σ ε err α) (before : σ) : Prop :=
  ∀ steps, property (script.crash before steps)

theorem Always.final (always : script.Always property before) : property (script.final before) := by
  have last := always (script before).1.length
  rwa [crash, List.take_length] at last

theorem Always.ends (always : script.Always property before) (run : script.Ends before value after) :
    property after := by
  rw [← run.2]
  exact always.final

theorem Always.mono {weaker : σ → Prop} (always : script.Always property before)
    (implies : ∀ state, property state → weaker state) : script.Always weaker before :=
  fun steps => implies _ (always steps)

@[simp]
theorem always_pure : (pure value : Script σ ε err α).Always property before ↔ property before := by
  simp [Always, crash, pure]

@[simp]
theorem always_read : (read : Script σ ε err σ).Always property before ↔ property before := by
  simp [Always, crash, read]

@[simp]
theorem always_fail :
    (fail failure : Script σ ε err α).Always property before ↔ property before := by
  simp [Always, crash, fail]

@[simp]
theorem always_lift :
    (lift outcome : Script σ ε err α).Always property before ↔ property before := by
  simp [Always, crash, lift]

@[simp]
theorem always_ensure :
    (ensure condition failure : Script σ ε err Unit).Always property before ↔ property before := by
  cases condition <;> simp [ensure]

@[simp]
theorem always_emit :
    (emit effect : Script σ ε err Unit).Always property before ↔
      property before ∧ property (Effect.perform effect before) := by
  constructor
  · intro always
    exact ⟨by simpa [crash] using always 0, by simpa [crash, emit] using always 1⟩
  · rintro ⟨start, finish⟩ steps
    cases steps with
    | zero => simpa [crash] using start
    | succ steps => simpa [crash, emit] using finish

/-- A script without effects has one crash point. -/
theorem always_of_silent {result : Except err α} (silent : script before = ([], result)) :
    script.Always property before ↔ property before := by
  simp [Always, crash, silent]

/-- Every crash point of a sequential composition is one of the first part, or one of the second
part started where the first part ended. -/
theorem always_bind :
    (script >>= next).Always property before ↔
      script.Always property before ∧
        ∀ value middle, script.Ends before value middle → (next value).Always property middle := by
  simp only [Always, crash, bind, andThen, Ends]
  cases outcome : (script before).2 with
  | error failure => simp
  | ok value =>
      simp only [List.take_append, performAll_append]
      constructor
      · intro always
        refine ⟨fun steps => ?_, ?_⟩
        · rcases Nat.le_total steps (script before).1.length with inside | outside
          · simpa [Nat.sub_eq_zero_of_le inside] using always steps
          · rw [List.take_of_length_le outside]
            simpa using always (script before).1.length
        · rintro value' middle ⟨same, rfl⟩ steps
          obtain rfl := Except.ok.inj same
          have later := always ((script before).1.length + steps)
          rwa [List.take_of_length_le (Nat.le_add_right _ _), Nat.add_sub_cancel_left] at later
      · rintro ⟨first, second⟩ steps
        rcases Nat.le_total steps (script before).1.length with inside | outside
        · simpa [Nat.sub_eq_zero_of_le inside] using first steps
        · rw [List.take_of_length_le outside]
          exact second value _ ⟨rfl, rfl⟩ _

/-- Induction along a loop: what each iteration keeps at every crash point, the loop keeps. -/
theorem always_each
    (step : ∀ item ∈ items, ∀ before, property before → (body item).Always property before)
    (start : property before) : (each body items).Always property before := by
  induction items generalizing before with
  | nil => simpa [each] using start
  | cons item items ih =>
      simp only [each, always_bind]
      have first := step item List.mem_cons_self before start
      refine ⟨first, fun _ middle run => ih ?_ (first.ends run)⟩
      exact fun item' member => step item' (List.mem_cons_of_mem item member)

/-! ## Relations between the states before and after -/

/-- Every complete run of the script relates the state before it to the state after it. -/
def Relates (relation : σ → σ → Prop) (script : Script σ ε err α) : Prop :=
  ∀ ⦃before value after⦄, script.Ends before value after → relation before after

section Relates

variable {relation : σ → σ → Prop} [IsPreorder σ relation]

theorem Relates.pure (value : α) : (pure value : Script σ ε err α).Relates relation := by
  intro before _ after run
  obtain ⟨-, rfl⟩ := ends_pure.mp run
  exact refl_of relation before

theorem Relates.bind (first : script.Relates relation)
    (second : ∀ value, (next value).Relates relation) : (script >>= next).Relates relation := by
  intro before _ after run
  obtain ⟨value, middle, run_first, run_second⟩ := ends_bind.mp run
  exact trans_of relation (first run_first) (second value run_second)

theorem Relates.each (step : ∀ item ∈ items, (body item).Relates relation) :
    (each body items).Relates relation := by
  induction items with
  | nil => exact Relates.pure ()
  | cons item items ih =>
      refine Relates.bind (step item List.mem_cons_self) fun _ => ih ?_
      exact fun other member => step other (List.mem_cons_of_mem item member)

end Relates

/-! ## Effects that occur -/

/-- Every effect the script performs, in whatever state it starts, is an allowed one. -/
def Emits (allowed : ε → Prop) (script : Script σ ε err α) : Prop :=
  ∀ before, ∀ effect ∈ (script before).1, allowed effect

/-- The script performs the effect when it is started in the state. -/
def Performs (script : Script σ ε err α) (before : σ) (effect : ε) : Prop :=
  effect ∈ (script before).1

section Emits

variable {allowed : ε → Prop}

omit [Effect ε σ] in
theorem Emits.mono {wider : ε → Prop} (emits : script.Emits allowed)
    (implies : ∀ effect, allowed effect → wider effect) : script.Emits wider :=
  fun before effect performed => implies effect (emits before effect performed)

@[simp]
theorem emits_pure (value : α) : (pure value : Script σ ε err α).Emits allowed := by
  simp [Emits, pure]

omit [Effect ε σ] in
@[simp]
theorem emits_read : (read : Script σ ε err σ).Emits allowed := by
  simp [Emits, read]

omit [Effect ε σ] in
@[simp]
theorem emits_fail (failure : err) : (fail failure : Script σ ε err α).Emits allowed := by
  simp [Emits, fail]

omit [Effect ε σ] in
@[simp]
theorem emits_lift (outcome : Except err α) : (lift outcome : Script σ ε err α).Emits allowed := by
  simp [Emits, lift]

omit [Effect ε σ] in
theorem Emits.emit (permitted : allowed effect) :
    (emit effect : Script σ ε err Unit).Emits allowed := by
  intro before other performed
  obtain rfl := List.mem_singleton.mp performed
  exact permitted

@[simp]
theorem emits_ensure (condition : Bool) (failure : err) :
    (ensure condition failure : Script σ ε err Unit).Emits allowed := by
  cases condition <;> simp [ensure]

/-- The second part of a sequential composition need only be looked at for values that the first
part can return. -/
theorem Emits.bind_ends (first : script.Emits allowed)
    (second : ∀ before value after, script.Ends before value after → (next value).Emits allowed) :
    (script >>= next).Emits allowed := by
  intro before effect performed
  simp only [Bind.bind, andThen] at performed
  cases outcome : (script before).2 with
  | error failure =>
      rw [outcome] at performed
      exact first before effect performed
  | ok value =>
      rw [outcome] at performed
      rcases List.mem_append.mp performed with early | late
      · exact first before effect early
      · exact second before value _ ⟨outcome, rfl⟩ _ effect late

theorem Emits.bind (first : script.Emits allowed) (second : ∀ value, (next value).Emits allowed) :
    (script >>= next).Emits allowed :=
  first.bind_ends fun _ value _ _ => second value

omit [Effect ε σ] in
theorem Emits.ite {condition : Prop} [Decidable condition] {second : Script σ ε err α}
    (holds : condition → first.Emits allowed) (fails : ¬condition → second.Emits allowed) :
    (if condition then first else second).Emits allowed := by
  split
  · next condition_holds => exact holds condition_holds
  · next condition_fails => exact fails condition_fails

theorem Emits.provided {script : Script σ ε err Unit}
    (emits : condition = true → script.Emits allowed) :
    (provided condition script).Emits allowed := by
  cases condition with
  | false => exact emits_pure ()
  | true => exact emits rfl

theorem Emits.each (step : ∀ item ∈ items, (body item).Emits allowed) :
    (each body items).Emits allowed := by
  induction items with
  | nil => exact emits_pure ()
  | cons item items ih =>
      refine Emits.bind (step item List.mem_cons_self) fun _ => ih ?_
      exact fun other member => step other (List.mem_cons_of_mem item member)

theorem Emits.fold {body : β → α → Script σ ε err β}
    (step : ∀ value, ∀ item ∈ items, (body value item).Emits allowed) (start : β) :
    (fold body start items).Emits allowed := by
  induction items generalizing start with
  | nil => exact emits_pure start
  | cons item items ih =>
      refine Emits.bind (step start item List.mem_cons_self) fun next => ih ?_ next
      exact fun value other member => step value other (List.mem_cons_of_mem item member)

theorem Emits.collect {body : α → Script σ ε err β}
    (step : ∀ item ∈ items, (body item).Emits allowed) : (collect body items).Emits allowed := by
  induction items with
  | nil => exact emits_pure []
  | cons item items ih =>
      refine Emits.bind (step item List.mem_cons_self) fun value => Emits.bind (ih ?_) fun _ => ?_
      · exact fun other member => step other (List.mem_cons_of_mem item member)
      · exact emits_pure _

omit [Effect ε σ] in
theorem Emits.attempt (emits : script.Emits allowed) : script.attempt.Emits allowed :=
  emits

omit [Effect ε σ] in
theorem Emits.not_performs (emits : script.Emits allowed) (forbidden : ¬allowed effect) (before : σ) :
    ¬script.Performs before effect :=
  fun performed => forbidden (emits before effect performed)

@[simp]
theorem performs_pure : ¬(pure value : Script σ ε err α).Performs before effect := by
  simp [Performs, pure]

omit [Effect ε σ] in
@[simp]
theorem performs_emit {performed : ε} :
    (emit effect : Script σ ε err Unit).Performs before performed ↔ performed = effect := by
  simp [Performs, emit]

omit [Effect ε σ] in
@[simp]
theorem performs_read : ¬(read : Script σ ε err σ).Performs before effect := by
  simp [Performs, read]

@[simp]
theorem performs_ensure :
    ¬(ensure condition failure : Script σ ε err Unit).Performs before effect := by
  cases condition <;> simp [Performs, ensure, pure, fail]

/-- An effect of a sequential composition is one of the first part, or one of the second part
started where the first part ended. -/
theorem performs_bind :
    (script >>= next).Performs before effect ↔
      script.Performs before effect ∨
        ∃ value middle, script.Ends before value middle ∧ (next value).Performs middle effect := by
  simp only [Performs, Bind.bind, andThen, Ends]
  cases outcome : (script before).2 with
  | error failure => simp
  | ok value =>
      simp only [List.mem_append]
      refine or_congr_right ⟨fun late => ⟨value, _, ⟨rfl, rfl⟩, late⟩, ?_⟩
      rintro ⟨value', middle, ⟨same, rfl⟩, late⟩
      obtain rfl := Except.ok.inj same
      exact late

theorem performs_ensure_bind {next : Unit → Script σ ε err β} :
    (ensure condition failure >>= next).Performs before effect ↔
      condition = true ∧ (next ()).Performs before effect := by
  rw [performs_bind]
  simp only [performs_ensure, ends_ensure, false_or]
  constructor
  · rintro ⟨⟨⟩, _, ⟨holds, rfl⟩, performed⟩
    exact ⟨holds, performed⟩
  · rintro ⟨holds, performed⟩
    exact ⟨(), before, ⟨holds, rfl⟩, performed⟩

/-- What every allowed effect keeps, the script keeps at every crash point. -/
theorem Emits.always (emits : script.Emits allowed)
    (keeps : ∀ effect state, allowed effect → property state →
      property (Effect.perform effect state)) (start : property before) :
    script.Always property before := by
  intro steps
  apply performAll_keeps _ start
  intro effect member state holds
  exact keeps effect state (emits before effect (List.mem_of_mem_take member)) holds

/-- What every allowed effect keeps, a complete run of the script keeps. -/
theorem Emits.ends (emits : script.Emits allowed)
    (keeps : ∀ effect state, allowed effect → property state →
      property (Effect.perform effect state)) (start : property before)
    (run : script.Ends before value after) : property after :=
  (emits.always keeps start).ends run

/-- A script without effects leaves the state as it was. -/
theorem Emits.silent (emits : script.Emits fun _ => False) (run : script.Ends before value after) :
    after = before := by
  have unchanged : ∀ (effect : ε) (state : σ), False → state = before →
      Effect.perform effect state = before :=
    fun _ _ impossible => impossible.elim
  have same := emits.ends unchanged rfl run
  exact same

/-- What starts without effects has the crash points of what follows. -/
theorem Emits.always_bind (emits : script.Emits fun _ => False) (start : property before)
    (rest : ∀ value, script.Ends before value before → (next value).Always property before) :
    (script >>= next).Always property before := by
  rw [Script.always_bind]
  constructor
  · exact emits.always (fun _ _ impossible => impossible.elim) start
  · intro value middle run
    obtain rfl := emits.silent run
    exact rest value run

end Emits

/-- Every effect the script performs when it is started in the state is an allowed one. -/
def PerformsOnly (allowed : ε → Prop) (script : Script σ ε err α) (before : σ) : Prop :=
  ∀ effect, script.Performs before effect → allowed effect

section PerformsOnly

variable {allowed : ε → Prop}

omit [Effect ε σ] in
theorem Emits.performsOnly (emits : script.Emits allowed) (before : σ) :
    script.PerformsOnly allowed before :=
  emits before

omit [Effect ε σ] in
theorem PerformsOnly.mono {wider : ε → Prop} (only : script.PerformsOnly allowed before)
    (implies : ∀ effect, allowed effect → wider effect) : script.PerformsOnly wider before :=
  fun effect performed => implies effect (only effect performed)

theorem PerformsOnly.bind (first : script.PerformsOnly allowed before)
    (second : ∀ value middle, script.Ends before value middle →
      (next value).PerformsOnly allowed middle) :
    (script >>= next).PerformsOnly allowed before := by
  intro effect performed
  rcases performs_bind.mp performed with early | ⟨value, middle, run, late⟩
  · exact first effect early
  · exact second value middle run effect late

/-- What each part performs in a state that the parts before it keep up. -/
theorem PerformsOnly.collect {invariant : σ → Prop} {body : α → Script σ ε err β}
    (step : ∀ item ∈ items, ∀ state, invariant state → (body item).PerformsOnly allowed state)
    (keeps : ∀ item ∈ items, ∀ state value after, invariant state →
      (body item).Ends state value after → invariant after) (start : invariant before) :
    (collect body items).PerformsOnly allowed before := by
  induction items generalizing before with
  | nil => exact (emits_pure _).performsOnly before
  | cons item items ih =>
      apply (step item List.mem_cons_self before start).bind
      intro value middle run
      have rest : (Script.collect body items).PerformsOnly allowed middle := by
        apply ih
        · exact fun other member => step other (List.mem_cons_of_mem item member)
        · exact fun other member => keeps other (List.mem_cons_of_mem item member)
        · exact keeps item List.mem_cons_self before value middle start run
      exact rest.bind fun _ _ _ => (emits_pure _).performsOnly _

/-- A continuation of reading the state is only looked at for that state. -/
theorem PerformsOnly.read_bind {next : σ → Script σ ε err β}
    (only : (next before).PerformsOnly allowed before) :
    (read >>= next : Script σ ε err β).PerformsOnly allowed before := by
  have silent : (read : Script σ ε err σ).PerformsOnly allowed before := emits_read.performsOnly before
  apply silent.bind
  intro value middle run
  obtain ⟨rfl, rfl⟩ := ends_read.mp run
  exact only

end PerformsOnly

/-- Started in the state, the script performs exactly these effects, or none. -/
def AllOrNothing (effects : List ε) (script : Script σ ε err α) (before : σ) : Prop :=
  (script before).1 = [] ∨ (script before).1 = effects

section AllOrNothing

variable {effects : List ε}

omit [Effect ε σ] in
theorem AllOrNothing.of_emits (emits : script.Emits fun _ => False) (before : σ) :
    script.AllOrNothing effects before :=
  .inl (List.eq_nil_iff_forall_not_mem.mpr (emits before))

/-- What starts without effects does as what follows. -/
theorem AllOrNothing.emits_bind (emits : script.Emits fun _ => False)
    (rest : ∀ value, script.Ends before value before → (next value).AllOrNothing effects before) :
    (script >>= next).AllOrNothing effects before := by
  have silent : (script before).1 = [] := List.eq_nil_iff_forall_not_mem.mpr (emits before)
  cases outcome : (script before).2 with
  | error failure =>
      left
      rw [bind_of_error outcome]
      exact silent
  | ok value =>
      have run : script.Ends before value before := ⟨outcome, by rw [silent, performAll_nil]⟩
      rw [AllOrNothing, bind_of_silent (Prod.ext silent outcome)]
      exact rest value run

/-- What ends without effects does as what comes before. -/
theorem AllOrNothing.bind_emits (first : script.AllOrNothing effects before)
    (silent : ∀ value middle, script.Ends before value middle → (next value middle).1 = []) :
    (script >>= next).AllOrNothing effects before := by
  cases outcome : (script before).2 with
  | error failure =>
      rw [AllOrNothing, bind_of_error outcome]
      exact first
  | ok value =>
      have run : script.Ends before value (performAll (script before).1 before) := ⟨outcome, rfl⟩
      rw [AllOrNothing, bind_of_ends run, silent value _ run, List.append_nil]
      exact first

/-- Its crash points are those of the effects. -/
theorem AllOrNothing.always (either : script.AllOrNothing effects before)
    (holds : ∀ steps, property (performAll (effects.take steps) before)) :
    script.Always property before := by
  intro steps
  rw [crash]
  rcases either with nothing | all
  · rw [nothing, List.take_nil]
    simpa using holds 0
  · rw [all]
    exact holds steps

end AllOrNothing

/-! ## Deciding late -/

/-- The script performs allowed effects only, or it succeeds and performs allowed effects only in
front of a decisive one, and allowed or decisive ones behind it. -/
def OnlyUntil (allowed : ε → Prop) (decisive : ε → Bool) (script : Script σ ε err α)
    (before : σ) : Prop :=
  script.PerformsOnly allowed before ∨
    ∃ first effect rest value, script before = (first ++ effect :: rest, .ok value) ∧
      (∀ other ∈ first, allowed other) ∧ decisive effect = true ∧
        ∀ other ∈ rest, allowed other ∨ decisive other = true

section OnlyUntil

variable {allowed : ε → Prop} {decisive : ε → Bool}

theorem PerformsOnly.bind_onlyUntil (first : script.PerformsOnly allowed before)
    (second : ∀ value middle, script.Ends before value middle →
      (next value).OnlyUntil allowed decisive middle) :
    (script >>= next).OnlyUntil allowed decisive before := by
  cases outcome : (script before).2 with
  | error failure =>
      left
      apply first.bind
      intro value middle run
      rw [run.1] at outcome
      cases outcome
  | ok value =>
      have run : script.Ends before value (performAll (script before).1 before) := ⟨outcome, rfl⟩
      rcases second value _ run with only | ⟨early, effect, rest, result, next_eq, allowed_early, tail⟩
      · left
        apply first.bind
        intro value' middle run'
        obtain ⟨rfl, rfl⟩ := run.deterministic run'
        exact only
      · right
        refine ⟨(script before).1 ++ early, effect, rest, result, ?_, ?_, tail⟩
        · simp only [Bind.bind, andThen, outcome, next_eq, List.append_assoc]
        · intro other member
          rcases List.mem_append.mp member with in_first | in_early
          · exact first other in_first
          · exact allowed_early other in_early

/-- After a decisive effect nothing may fail. -/
theorem onlyUntil_emit_bind {next : Unit → Script σ ε err β} (decides : decisive effect = true)
    (decided : (next ()).Emits fun other => allowed other ∨ decisive other = true)
    (succeeds : ∀ state, ∃ value, (next () state).2 = .ok value) :
    (emit effect >>= next).OnlyUntil allowed decisive before := by
  right
  obtain ⟨value, value_eq⟩ := succeeds (performAll [effect] before)
  refine ⟨[], effect, (next () (performAll [effect] before)).1, value, ?_, nofun, decides,
    decided _⟩
  simp only [Bind.bind, andThen, emit, ← value_eq]
  rfl

/-- What follows performs allowed effects only and does not fail. -/
theorem OnlyUntil.bind (first : script.OnlyUntil allowed decisive before)
    (second : ∀ value, (next value).Emits allowed)
    (succeeds : ∀ value state, ∃ result, (next value state).2 = .ok result) :
    (script >>= next).OnlyUntil allowed decisive before := by
  rcases first with only | ⟨early, effect, rest, value, script_eq, allowed_early, decides, decided⟩
  · left
    exact only.bind fun value middle _ => (second value).performsOnly middle
  · right
    obtain ⟨result, result_eq⟩ := succeeds value (performAll (early ++ effect :: rest) before)
    refine ⟨early, effect, rest ++ (next value (performAll (early ++ effect :: rest) before)).1,
      result, ?_, allowed_early, decides, ?_⟩
    · simp only [Bind.bind, andThen, script_eq, ← result_eq]
      simp
    · intro other member
      rcases List.mem_append.mp member with in_rest | in_next
      · exact decided other in_rest
      · exact .inl (second value _ other in_next)

/-- A cleanup only runs when nothing was decided. -/
theorem OnlyUntil.onError {body : Script σ ε err α} {cleanup : List ε → Script σ ε err Unit}
    (first : body.OnlyUntil allowed decisive before)
    (second : (∀ effect ∈ (body before).1, allowed effect) →
      (cleanup (body before).1).Emits allowed) :
    (body.onError cleanup).OnlyUntil allowed decisive before := by
  rcases first with only | ⟨early, effect, rest, value, body_eq, allowed_early, tail⟩
  · left
    intro effect performed
    simp only [Performs, Script.onError] at performed
    cases outcome : (body before).2 with
    | ok value =>
        rw [outcome] at performed
        exact only effect performed
    | error failure =>
        rw [outcome] at performed
        rcases List.mem_append.mp performed with in_body | in_cleanup
        · exact only effect in_body
        · exact second only _ effect in_cleanup
  · right
    refine ⟨early, effect, rest, value, ?_, allowed_early, tail⟩
    simp only [Script.onError, body_eq]

omit [Effect ε σ] in
/-- Everything performed is allowed or decisive. -/
theorem OnlyUntil.performsOnly (only : script.OnlyUntil allowed decisive before) :
    script.PerformsOnly (fun effect => allowed effect ∨ decisive effect = true) before := by
  intro effect performed
  rcases only with only | ⟨first, decided, rest, value, script_eq, allowed_first, decides, tail⟩
  · exact .inl (only effect performed)
  · rw [Performs, script_eq] at performed
    rcases List.mem_append.mp performed with in_first | in_last
    · exact .inl (allowed_first effect in_first)
    · rcases List.mem_cons.mp in_last with rfl | in_rest
      · exact .inr decides
      · exact tail effect in_rest

omit [Effect ε σ] in
/-- A failed run has performed allowed effects only. -/
theorem OnlyUntil.of_error (only : script.OnlyUntil allowed decisive before)
    (failed : (script before).2 = .error failure) : script.PerformsOnly allowed before := by
  rcases only with only | ⟨_, _, _, value, script_eq, -, -⟩
  · exact only
  · rw [script_eq] at failed
    cases failed

omit [Effect ε σ] in
/-- What is performed before the decisive effect is allowed. -/
theorem OnlyUntil.takeWhile (only : script.OnlyUntil allowed decisive before) :
    ∀ effect ∈ (script before).1.takeWhile (fun effect => !decisive effect), allowed effect := by
  intro effect member
  rcases only with only | ⟨first, decided, rest, value, script_eq, allowed_first, decides, -⟩
  · exact only effect (List.takeWhile_subset _ member)
  · rw [script_eq, List.takeWhile_append] at member
    split at member
    · rw [List.takeWhile_cons_of_neg (by simp [decides]), List.append_nil] at member
      exact allowed_first effect member
    · exact allowed_first effect (List.takeWhile_subset _ member)

end OnlyUntil

end Script
