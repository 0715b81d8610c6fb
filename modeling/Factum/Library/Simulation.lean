/-
This file is about two programs that run in step.

One program is written over an interface and run over two implementations of it,
whose states are related. The two runs agree when from related states they end in
the same way, with the same value or the same error, and in related states again.
Agreement is closed under sequencing and under everything a program does between
two calls, so it is enough to show it for the calls of the interface.
-/

import Factum.Library.Stateful

namespace Simulation

open Stateful

variable {ε σ τ α β : Type}

/-- Two results with the same value or the same error, and related states. -/
def ResultsAgree (related : σ → τ → Prop) :
    EStateM.Result ε σ α → EStateM.Result ε τ α → Prop
  | .ok value left, .ok value' right => value = value' ∧ related left right
  | .error error left, .error error' right => error = error' ∧ related left right
  | .ok _ _, .error _ _ => False
  | .error _ _, .ok _ _ => False

/-- Two programs that agree from all related states. -/
def Agree (related : σ → τ → Prop) (left : EStateM ε σ α) (right : EStateM ε τ α) : Prop :=
  ∀ s t, related s t → ResultsAgree related (left s) (right t)

variable {related : σ → τ → Prop}

theorem Agree.pure (value : α) :
    Agree related (Pure.pure value : EStateM ε σ α) (Pure.pure value) :=
  fun _ _ states => ⟨rfl, states⟩

theorem Agree.throw (error : ε) :
    Agree related (MonadExcept.throw error : EStateM ε σ α) (MonadExcept.throw error) :=
  fun _ _ states => ⟨rfl, states⟩

theorem Agree.update {update : σ → σ} {update' : τ → τ}
    (keeps : ∀ s t, related s t → related (update s) (update' t)) :
    Agree related (modify update : EStateM ε σ PUnit) (modify update') :=
  fun s t states => ⟨rfl, keeps s t states⟩

/-- Agreement of a sequence whose first step returns values of a known kind. -/
theorem Agree.bind_of {kind : α → Prop} {first : EStateM ε σ α} {first' : EStateM ε τ α}
    {next : α → EStateM ε σ β} {next' : α → EStateM ε τ β}
    (firsts : Agree related first first')
    (returns : ∀ s t, related s t → ∀ value s', first s = .ok value s' → kind value)
    (nexts : ∀ value, kind value → Agree related (next value) (next' value)) :
    Agree related (first >>= next) (first' >>= next') := by
  intro s t states
  have step := firsts s t states
  cases ran : first s with
  | ok value s' =>
    cases ran' : first' t with
    | ok value' t' =>
      rw [ran, ran'] at step
      obtain ⟨rfl, after⟩ := step
      rw [bind_ok ran, bind_ok ran']
      exact nexts value (returns s t states value s' ran) s' t' after
    | error error t' =>
      rw [ran, ran'] at step
      exact step.elim
  | error error s' =>
    cases ran' : first' t with
    | ok value' t' =>
      rw [ran, ran'] at step
      exact step.elim
    | error error' t' =>
      rw [ran, ran'] at step
      obtain ⟨rfl, after⟩ := step
      rw [bind_error ran, bind_error ran']
      exact ⟨rfl, after⟩

/-- Agreement of a sequence. -/
theorem Agree.bind {first : EStateM ε σ α} {first' : EStateM ε τ α}
    {next : α → EStateM ε σ β} {next' : α → EStateM ε τ β}
    (firsts : Agree related first first')
    (nexts : ∀ value, Agree related (next value) (next' value)) :
    Agree related (first >>= next) (first' >>= next') :=
  have anyValue : ∀ s t, related s t → ∀ value s', first s = .ok value s' → True :=
    fun _ _ _ _ _ _ => trivial
  .bind_of firsts anyValue fun value _ => nexts value

/-- Agreement of a sequence whose first step reads: what the two runs read need not be equal
for the rest to agree. -/
theorem Agree.bind_reads (alike : α → α → Prop) {first : EStateM ε σ α}
    {first' : EStateM ε τ α} {next : α → EStateM ε σ β}
    {next' : α → EStateM ε τ β}
    (reads : ∀ s t, related s t → ∃ value value', first s = .ok value s ∧
      first' t = .ok value' t ∧ alike value value')
    (nexts : ∀ value value', alike value value' → Agree related (next value) (next' value')) :
    Agree related (first >>= next) (first' >>= next') := by
  intro s t states
  obtain ⟨value, value', ran, ran', areAlike⟩ := reads s t states
  rw [bind_ok ran, bind_ok ran']
  exact nexts value value' areAlike s t states

/-- Agreement after reading the state. -/
theorem Agree.get_bind {next : σ → EStateM ε σ β} {next' : τ → EStateM ε τ β}
    (nexts : ∀ s t, related s t → Agree related (next s) (next' t)) :
    Agree related (get >>= next) (get >>= next') :=
  fun s t states => nexts s t states s t states

/-- Agreement of the two branches of a test. -/
theorem Agree.ite {condition : Prop} [Decidable condition] {yes no : EStateM ε σ α}
    {yes' no' : EStateM ε τ α} (ifYes : condition → Agree related yes yes')
    (ifNo : ¬ condition → Agree related no no') :
    Agree related (if condition then yes else no) (if condition then yes' else no') := by
  split
  · exact ifYes ‹_›
  · exact ifNo ‹_›

/-- Agreeing programs leave related states. -/
theorem Agree.final {left : EStateM ε σ α} {right : EStateM ε τ α}
    (agree : Agree related left right) {s : σ} {t : τ} (states : related s t) :
    related (final left s) (final right t) := by
  have step := agree s t states
  unfold Stateful.final
  cases ran : left s <;> cases ran' : right t <;> rw [ran, ran'] at step
  · exact step.2
  · exact step.elim
  · exact step.elim
  · exact step.2

/-- Agreeing programs answer the same. -/
theorem Agree.answer {left : EStateM ε σ α} {right : EStateM ε τ α}
    (agree : Agree related left right) {s : σ} {t : τ} (states : related s t) :
    answer left s = answer right t := by
  have step := agree s t states
  unfold Stateful.answer
  cases ran : left s <;> cases ran' : right t <;> rw [ran, ran'] at step
  · rw [step.1]
  · exact step.elim
  · exact step.elim
  · rw [step.1]

end Simulation
