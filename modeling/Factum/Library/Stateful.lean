/-
This file is about running computations that carry a state and may fail.

A computation in `EStateM` is a function from a state to a value or an error,
with the state that it leaves in either case. The rules here run such a
computation one step at a time: each says what the first step of a program does
to a state and leaves the rest of the program applied to the state after it.
-/

import Mathlib.Init

namespace Stateful

variable {ε σ α β : Type}

@[simp] theorem pure_run (value : α) (state : σ) :
    (pure value : EStateM ε σ α) state = .ok value state := rfl

@[simp] theorem throw_run (error : ε) (state : σ) :
    (throw error : EStateM ε σ α) state = .error error state := rfl

@[simp] theorem throw_bind_run (error : ε) (next : α → EStateM ε σ β) (state : σ) :
    ((throw error : EStateM ε σ α) >>= next) state = .error error state := rfl

@[simp] theorem pure_bind_run (value : α) (next : α → EStateM ε σ β) (state : σ) :
    (pure value >>= next) state = next value state := rfl

@[simp] theorem get_bind_run (next : σ → EStateM ε σ β) (state : σ) :
    (get >>= next) state = next state state := rfl

@[simp] theorem modify_bind_run (update : σ → σ) (next : PUnit → EStateM ε σ β) (state : σ) :
    ((modify update : EStateM ε σ PUnit) >>= next) state = next ⟨⟩ (update state) := rfl

@[simp] theorem map_run (f : α → β) (first : EStateM ε σ α) (state : σ) :
    (f <$> first) state = match first state with
      | .ok value after => .ok (f value) after
      | .error error after => .error error after := rfl

@[simp] theorem ite_run (condition : Prop) [Decidable condition] (first second : EStateM ε σ α)
    (state : σ) :
    (if condition then first else second) state =
      if condition then first state else second state := by
  split <;> rfl

/-- A first step that succeeds hands its value and its state to the rest. -/
theorem bind_ok {first : EStateM ε σ α} {next : α → EStateM ε σ β} {before after : σ} {value : α}
    (succeeds : first before = .ok value after) :
    (first >>= next) before = next value after := by
  show EStateM.bind first next before = next value after
  simp only [EStateM.bind, succeeds]

/-- A step whose value is not used. -/
theorem discard_ok {first : EStateM ε σ α} {before after : σ} {value : α}
    (succeeds : first before = .ok value after) :
    (discard first) before = .ok PUnit.unit after := by
  show EStateM.map _ first before = .ok PUnit.unit after
  simp only [EStateM.map, succeeds]

/-- A step whose value is not used and that fails. -/
theorem discard_error {first : EStateM ε σ α} {before after : σ} {error : ε}
    (fails : first before = .error error after) :
    (discard first : EStateM ε σ PUnit) before = .error error after := by
  show EStateM.map _ first before = .error error after
  simp only [EStateM.map, fails]

/-- A first step that fails is the failure of the whole. -/
theorem bind_error {first : EStateM ε σ α} {next : α → EStateM ε σ β} {before after : σ}
    {error : ε} (fails : first before = .error error after) :
    (first >>= next) before = .error error after := by
  show EStateM.bind first next before = .error error after
  simp only [EStateM.bind, fails]

/-- What follows a first step depends on its result alone. -/
theorem bind_congr_run {first first' : EStateM ε σ α} {before before' : σ}
    (same : first before = first' before') (next : α → EStateM ε σ β) :
    (first >>= next) before = (first' >>= next) before' := by
  show EStateM.bind first next before = EStateM.bind first' next before'
  rw [EStateM.bind, EStateM.bind, same]

/-- A first step whose value is not used is run for its state. -/
theorem discard_bind (first : EStateM ε σ α) (next : PUnit → EStateM ε σ β) :
    (discard first >>= next) = (first >>= fun _ => next ⟨⟩) := by
  funext state
  cases ran : first state with
  | ok value after => rw [bind_ok (discard_ok ran), bind_ok ran]
  | error error after => rw [bind_error (discard_error ran), bind_error ran]

/-- Not to use the value of a sequence is not to use that of its second step. -/
theorem discard_sequence (first : EStateM ε σ α) (next : α → EStateM ε σ β) :
    (discard (first >>= next) : EStateM ε σ PUnit) =
      first >>= fun value => discard (next value) := by
  funext state
  cases ran : first state with
  | ok value after =>
    rw [bind_ok ran]
    cases ranNext : next value after with
    | ok result last => rw [discard_ok ((bind_ok ran).trans ranNext), discard_ok ranNext]
    | error error last => rw [discard_error ((bind_ok ran).trans ranNext), discard_error ranNext]
  | error error after => rw [bind_error ran, discard_error (bind_error ran)]

/-- A sequence succeeds exactly when both of its steps do. -/
theorem bind_eq_ok {first : EStateM ε σ α} {next : α → EStateM ε σ β} {before after : σ}
    {result : β} :
    (first >>= next) before = .ok result after ↔
      ∃ value between, first before = .ok value between ∧
        next value between = .ok result after := by
  constructor
  · intro succeeds
    cases ran : first before with
    | ok value between => exact ⟨value, between, rfl, by rwa [bind_ok ran] at succeeds⟩
    | error error between =>
      rw [bind_error ran] at succeeds
      exact absurd succeeds (by simp)
  · rintro ⟨value, between, ran, rest⟩
    rw [bind_ok ran, rest]

/-- The state that a computation leaves, whether it succeeds or fails. -/
def final (computation : EStateM ε σ α) (state : σ) : σ :=
  match computation state with
  | .ok _ after => after
  | .error _ after => after

/-- The value or the error of a computation, without the state. -/
def answer (computation : EStateM ε σ α) (state : σ) : Except ε α :=
  match computation state with
  | .ok value _ => .ok value
  | .error error _ => .error error

/-- A computation answers with a value when it succeeds with it. -/
theorem answer_eq_ok {computation : EStateM ε σ α} {before : σ} {value : α} :
    answer computation before = .ok value ↔ ∃ after, computation before = .ok value after := by
  unfold answer
  cases computation before with
  | ok value' after =>
    constructor
    · rintro ⟨⟩
      exact ⟨after, rfl⟩
    · rintro ⟨_, ⟨⟩⟩
      rfl
  | error error after =>
    constructor
    · rintro ⟨⟩
    · rintro ⟨_, ⟨⟩⟩

theorem final_ok {computation : EStateM ε σ α} {before after : σ} {value : α}
    (succeeds : computation before = .ok value after) : final computation before = after := by
  rw [final, succeeds]

theorem final_error {computation : EStateM ε σ α} {before after : σ} {error : ε}
    (fails : computation before = .error error after) : final computation before = after := by
  rw [final, fails]

theorem answer_ok {computation : EStateM ε σ α} {before after : σ} {value : α}
    (succeeds : computation before = .ok value after) :
    answer computation before = .ok value := by
  rw [answer, succeeds]

theorem answer_error {computation : EStateM ε σ α} {before after : σ} {error : ε}
    (fails : computation before = .error error after) :
    answer computation before = .error error := by
  rw [answer, fails]

/-- What is done with the value does not change the state. -/
theorem final_bind_pure (first : EStateM ε σ α) (f : α → β) (state : σ) :
    final (first >>= fun value => pure (f value)) state = final first state := by
  cases ran : first state with
  | ok value after =>
    have whole : (first >>= fun value => pure (f value)) state = .ok (f value) after := bind_ok ran
    rw [final_ok ran, final_ok whole]
  | error error after =>
    have whole : (first >>= fun value => (pure (f value) : EStateM ε σ β)) state =
        .error error after := bind_error ran
    rw [final_error ran, final_error whole]

/-- What is done with the value is done with the answer. -/
theorem answer_bind_pure (first : EStateM ε σ α) (f : α → β) (state : σ) :
    answer (first >>= fun value => pure (f value)) state = (answer first state).map f := by
  cases ran : first state with
  | ok value after =>
    have whole : (first >>= fun value => pure (f value)) state = .ok (f value) after := bind_ok ran
    rw [answer_ok ran, answer_ok whole]
    rfl
  | error error after =>
    have whole : (first >>= fun value => (pure (f value) : EStateM ε σ β)) state =
        .error error after := bind_error ran
    rw [answer_error ran, answer_error whole]
    rfl

/-! ### What computations leave -/

/-- A computation that leaves a state related to the one before it, whether it succeeds or
fails. -/
def Leaves (related : σ → σ → Prop) (computation : EStateM ε σ α) : Prop :=
  ∀ state, related state (final computation state)

section Leaves

variable {related : σ → σ → Prop}

theorem Leaves.pure (refl : ∀ state, related state state) (value : α) :
    Leaves related (Pure.pure value : EStateM ε σ α) := refl

theorem Leaves.throw (refl : ∀ state, related state state) (error : ε) :
    Leaves related (MonadExcept.throw error : EStateM ε σ α) := refl

theorem Leaves.get_bind {next : σ → EStateM ε σ β}
    (rest : ∀ state, Leaves related (next state)) : Leaves related (get >>= next) :=
  fun state => rest state state

theorem Leaves.ite {condition : Prop} [Decidable condition] {yes no : EStateM ε σ α}
    (ifYes : Leaves related yes) (ifNo : Leaves related no) :
    Leaves related (if condition then yes else no) := by
  split
  · exact ifYes
  · exact ifNo

/-- A computation that leaves a related state when it fails. -/
def Errs (related : σ → σ → Prop) (computation : EStateM ε σ α) : Prop :=
  ∀ before error after, computation before = .error error after → related before after

theorem Leaves.errs {computation : EStateM ε σ α} (leaves : Leaves related computation) :
    Errs related computation := by
  intro before error after fails
  have step := leaves before
  rw [final_error fails] at step
  exact step

theorem Errs.get_bind {next : σ → EStateM ε σ β}
    (rest : ∀ state, Errs related (next state)) : Errs related (get >>= next) :=
  fun state => rest state state

/-- A first step that leaves a related state either way. -/
theorem Leaves.bind_errs (trans : ∀ {first second third}, related first second →
      related second third → related first third)
    {first : EStateM ε σ α} {next : α → EStateM ε σ β}
    (here : Leaves related first) (rest : ∀ value, Errs related (next value)) :
    Errs related (first >>= next) := by
  intro before error after fails
  have step := here before
  cases ran : first before with
  | ok value between =>
    rw [final_ok ran] at step
    rw [bind_ok ran] at fails
    exact trans step (rest value between error after fails)
  | error error' between =>
    rw [final_error ran] at step
    rw [bind_error ran] at fails
    injection fails with _ same
    rw [← same]
    exact step

/-- A first step that leaves a related state when it fails, before a rest that does not. -/
theorem Errs.bind {first : EStateM ε σ α} {next : α → EStateM ε σ β} (here : Errs related first)
    (rest : ∀ value state error after, next value state ≠ .error error after) :
    Errs related (first >>= next) := by
  intro before error after fails
  cases ran : first before with
  | ok value between =>
    rw [bind_ok ran] at fails
    exact absurd fails (rest value between error after)
  | error error' between =>
    rw [bind_error ran] at fails
    injection fails with _ same
    rw [← same]
    exact here before error' between ran

end Leaves

/-! ### What computations yield -/

/-- A computation that keeps an invariant and yields a value of a kind, when it succeeds. -/
def Yields (invariant : σ → Prop) (computation : EStateM ε σ α) (good : α → Prop) : Prop :=
  ∀ before value after, invariant before → computation before = .ok value after →
    invariant after ∧ good value

section Yields

variable {invariant : σ → Prop} {good : α → Prop} {good' : β → Prop}

theorem Yields.pure {value : α} (isGood : good value) :
    Yields invariant (Pure.pure value : EStateM ε σ α) good := by
  intro before _ _ holds succeeds
  cases succeeds
  exact ⟨holds, isGood⟩

theorem Yields.throw (error : ε) :
    Yields invariant (MonadExcept.throw error : EStateM ε σ α) good := by
  intro _ _ _ _ succeeds
  cases succeeds

theorem Yields.throw_bind (error : ε) (next : α → EStateM ε σ β) :
    Yields invariant ((MonadExcept.throw error : EStateM ε σ α) >>= next) good' := by
  intro _ _ _ _ succeeds
  cases succeeds

theorem Yields.ite {condition : Prop} [Decidable condition] {yes no : EStateM ε σ α}
    (ifYes : condition → Yields invariant yes good)
    (ifNo : ¬ condition → Yields invariant no good) :
    Yields invariant (if condition then yes else no) good := by
  split
  · exact ifYes ‹_›
  · exact ifNo ‹_›

theorem Yields.bind {first : EStateM ε σ α} {next : α → EStateM ε σ β}
    (here : Yields invariant first good)
    (rest : ∀ value, good value → Yields invariant (next value) good') :
    Yields invariant (first >>= next) good' := by
  intro before result after holds succeeds
  obtain ⟨value, between, ran, ranRest⟩ := bind_eq_ok.mp succeeds
  obtain ⟨holds', isGood⟩ := here before value between holds ran
  exact rest value isGood between result after holds' ranRest

theorem Yields.get_bind {next : σ → EStateM ε σ α}
    (rest : ∀ state, invariant state → Yields invariant (next state) good) :
    Yields invariant (get >>= next) good :=
  fun state value after holds succeeds => rest state holds state value after holds succeeds

theorem Yields.discard {computation : EStateM ε σ α} (yields : Yields invariant computation good) :
    Yields invariant (discard computation) fun _ => True := by
  intro before value after holds succeeds
  cases ran : computation before with
  | ok value' after' =>
    rw [discard_ok ran] at succeeds
    cases succeeds
    exact ⟨(yields before value' after holds ran).1, trivial⟩
  | error error after' =>
    rw [discard_error ran] at succeeds
    cases succeeds

/-- Nothing is asked of the state or of the value. -/
theorem Yields.any (computation : EStateM ε σ α) :
    Yields (fun _ => True) computation fun _ => True :=
  fun _ _ _ _ _ => ⟨trivial, trivial⟩

/-- A first step whose values are of a known kind leaves a related state, and so does the rest
for every value of the kind. -/
theorem Leaves.bind_yields {related : σ → σ → Prop} (trans : ∀ {first second third},
      related first second → related second third → related first third)
    {first : EStateM ε σ α} {next : α → EStateM ε σ β} (here : Leaves related first)
    (yields : Yields (fun _ => True) first good)
    (rest : ∀ value, good value → Leaves related (next value)) :
    Leaves related (first >>= next) := by
  intro state
  have step := here state
  cases ran : first state with
  | ok value between =>
    have isGood := (yields state value between trivial ran).2
    rw [final_ok ran] at step
    have whole : final (first >>= next) state = final (next value) between := by
      rw [final, bind_ok ran, final]
    rw [whole]
    exact trans step (rest value isGood between)
  | error error between =>
    rw [final_error ran] at step
    rw [final_error (bind_error ran)]
    exact step

theorem Leaves.bind {related : σ → σ → Prop} (trans : ∀ {first second third},
      related first second → related second third → related first third)
    {first : EStateM ε σ α} {next : α → EStateM ε σ β} (here : Leaves related first)
    (rest : ∀ value, Leaves related (next value)) : Leaves related (first >>= next) := by
  refine Leaves.bind_yields ?_ here (.any first) fun value _ => rest value
  exact trans

end Yields

/-! ### What computations return -/

/-- A computation that succeeds from every state of an invariant, keeps it and returns a value
of a kind. -/
def Returns (invariant : σ → Prop) (computation : EStateM ε σ α) (good : α → Prop) : Prop :=
  ∀ before, invariant before →
    ∃ value after, computation before = .ok value after ∧ invariant after ∧ good value

section Returns

variable {invariant : σ → Prop} {good : α → Prop} {good' : β → Prop}

theorem Returns.pure {value : α} (isGood : good value) :
    Returns invariant (Pure.pure value : EStateM ε σ α) good :=
  fun before holds => ⟨value, before, rfl, holds, isGood⟩

theorem Returns.ite {condition : Prop} [Decidable condition] {yes no : EStateM ε σ α}
    (ifYes : condition → Returns invariant yes good)
    (ifNo : ¬ condition → Returns invariant no good) :
    Returns invariant (if condition then yes else no) good := by
  split
  · exact ifYes ‹_›
  · exact ifNo ‹_›

theorem Returns.bind {first : EStateM ε σ α} {next : α → EStateM ε σ β}
    (here : Returns invariant first good)
    (rest : ∀ value, good value → Returns invariant (next value) good') :
    Returns invariant (first >>= next) good' := by
  intro before holds
  obtain ⟨value, between, ran, holds', isGood⟩ := here before holds
  obtain ⟨result, after, ranRest, holds'', isGood'⟩ := rest value isGood between holds'
  exact ⟨result, after, (bind_ok ran).trans ranRest, holds'', isGood'⟩

theorem Returns.get_bind {next : σ → EStateM ε σ α}
    (rest : ∀ state, invariant state → Returns invariant (next state) good) :
    Returns invariant (get >>= next) good :=
  fun state holds => rest state holds state holds

theorem Returns.mono {good' : α → Prop} {computation : EStateM ε σ α}
    (returns : Returns invariant computation good) (weaker : ∀ value, good value → good' value) :
    Returns invariant computation good' := by
  intro before holds
  obtain ⟨value, after, ran, holds', isGood⟩ := returns before holds
  exact ⟨value, after, ran, holds', weaker value isGood⟩

end Returns

end Stateful
