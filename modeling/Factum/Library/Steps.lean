/-
This file is about runs of a system that takes one input at a time.

A property of a run speaks of each input together with the state before it. When a
property of the states is kept by an input exactly if the input is good where it
comes, the property holds throughout a run exactly if every input of the run is good
where it comes.
-/

import Mathlib.Init

namespace Steps

variable {σ ι : Type} (step : σ → ι → σ)

/-- A property of every input of a run, with the state before it. -/
def Along (property : σ → ι → Prop) : σ → List ι → Prop
  | _, [] => True
  | state, input :: rest => property state input ∧ Along property (step state input) rest

variable {step}

/-- What holds of each input in every state holds along every run. -/
theorem along_of_mem {property : σ → ι → Prop} {inputs : List ι}
    (each : ∀ input ∈ inputs, ∀ state, property state input) (state : σ) :
    Along step property state inputs := by
  induction inputs generalizing state with
  | nil => exact trivial
  | cons input rest inductionHypothesis =>
    obtain ⟨here, later⟩ := List.forall_mem_cons.mp each
    exact ⟨here state, inductionHypothesis later (step state input)⟩

/-- A property holds along a run if it holds of each input in the state that the inputs before
it lead to. -/
theorem along_iff_prefix {property : σ → ι → Prop} (inputs : List ι) : ∀ state : σ,
    Along step property state inputs ↔
      ∀ early input, early ++ [input] <+: inputs → property (early.foldl step state) input := by
  induction inputs with
  | nil =>
    refine fun state => ⟨fun _ early input isEarly => ?_, fun _ => trivial⟩
    exact absurd (List.prefix_nil.mp isEarly) (by simp)
  | cons first rest inductionHypothesis =>
    intro state
    rw [Along, inductionHypothesis]
    constructor
    · rintro ⟨here, later⟩ early input isEarly
      cases early with
      | nil =>
        obtain ⟨rfl, _⟩ := List.cons_prefix_cons.mp isEarly
        exact here
      | cons first' early =>
        obtain ⟨rfl, isRest⟩ := List.cons_prefix_cons.mp isEarly
        exact later early input isRest
    · intro each
      refine ⟨each [] first ⟨rest, rfl⟩, fun early input isEarly => ?_⟩
      exact each (first :: early) input (List.cons_prefix_cons.mpr ⟨rfl, isEarly⟩)

/-- Two properties that are the same for each input where an invariant holds are the same along
every run. -/
theorem along_congr {invariant : σ → Prop} {property good : σ → ι → Prop}
    (keeps : ∀ state input, invariant state → invariant (step state input))
    (same : ∀ state input, invariant state → (property state input ↔ good state input))
    (inputs : List ι) : ∀ {state : σ}, invariant state →
      (Along step property state inputs ↔ Along step good state inputs) := by
  induction inputs with
  | nil => exact fun _ => Iff.rfl
  | cons input rest inductionHypothesis =>
    intro state holds
    exact and_congr (same state input holds) (inductionHypothesis (keeps state input holds))

/-- A property that each input keeps exactly when the input is good holds throughout a run
exactly when every input of the run is good. -/
theorem throughout_iff_along {invariant property : σ → Prop} {given good : σ → ι → Prop}
    (keeps : ∀ state input, invariant state → given state input → invariant (step state input))
    (exact_ : ∀ state input, invariant state → property state → given state input →
      (property (step state input) ↔ good state input)) (inputs : List ι) :
    ∀ {state : σ}, invariant state → property state → Along step given state inputs →
      ((∀ early, early <+: inputs → property (early.foldl step state)) ↔
        Along step good state inputs) := by
  induction inputs with
  | nil =>
    intro state _ holds _
    refine ⟨fun _ => trivial, fun _ early isEarly => ?_⟩
    rw [List.prefix_nil.mp isEarly]
    exact holds
  | cons input rest inductionHypothesis =>
    rintro state invariantHere holds ⟨givenHere, givenLater⟩
    have next := exact_ state input invariantHere holds givenHere
    have invariantNext := keeps state input invariantHere givenHere
    constructor
    · intro throughout
      have holdsNext : property (step state input) := throughout [input] ⟨rest, rfl⟩
      refine ⟨next.mp holdsNext, ?_⟩
      refine (inductionHypothesis invariantNext holdsNext givenLater).mp fun early isEarly => ?_
      exact throughout (input :: early) (List.cons_prefix_cons.mpr ⟨rfl, isEarly⟩)
    · rintro ⟨goodHere, goodLater⟩ early isEarly
      have holdsNext := next.mpr goodHere
      cases early with
      | nil => exact holds
      | cons first later =>
        obtain ⟨rfl, isLater⟩ := List.cons_prefix_cons.mp isEarly
        exact (inductionHypothesis invariantNext holdsNext givenLater).mpr goodLater later isLater

end Steps
