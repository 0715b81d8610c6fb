/-
This file is about assignments that are collected pair by pair.

An assignment is a list of pairs of a name and a value. A pair is taken in when its
name is new, passed over when the name has the same value already, and refused when
the name has another one. Collecting some pairs succeeds when no name stands in them
with two values, and what is collected is then the pairs themselves, each name once.
-/

import Mathlib.Data.List.Nodup

namespace Assignments

variable {κ α : Type}

/-- No name stands with two values. -/
def SingleValued (pairs : List (κ × α)) : Prop :=
  ∀ name first second, (name, first) ∈ pairs → (name, second) ∈ pairs → first = second

theorem singleValued_of_nodup {known : List (κ × α)} (distinct : (known.map Prod.fst).Nodup) :
    SingleValued known := by
  intro name first second isFirst isSecond
  have same := List.inj_on_of_nodup_map distinct isFirst isSecond rfl
  exact congrArg Prod.snd same

/-! ### Finding a name -/

variable [DecidableEq κ]

/-- The value of a name. -/
def lookup (known : List (κ × α)) (name : κ) : Option α :=
  (known.find? (·.1 == name)).map Prod.snd

theorem find?_eq_none_iff (known : List (κ × α)) (name : κ) :
    known.find? (·.1 == name) = none ↔ name ∉ known.map Prod.fst := by
  simp only [List.find?_eq_none, List.mem_map, beq_iff_eq, not_exists, not_and]

theorem mem_of_find? {known : List (κ × α)} {name found : κ} {value : α}
    (isFound : known.find? (·.1 == name) = some (found, value)) : (name, value) ∈ known := by
  have same : found = name := by simpa using List.find?_some isFound
  rw [← same]
  exact List.mem_of_find?_eq_some isFound

theorem lookup_eq_some_iff {known : List (κ × α)} (distinct : (known.map Prod.fst).Nodup)
    (name : κ) (value : α) : lookup known name = some value ↔ (name, value) ∈ known := by
  rw [lookup, Option.map_eq_some_iff]
  constructor
  · rintro ⟨⟨found, _⟩, isFound, rfl⟩
    exact mem_of_find? isFound
  · intro member
    cases isFound : known.find? (·.1 == name) with
    | none =>
      exact absurd (List.mem_map_of_mem (f := Prod.fst) member)
        ((find?_eq_none_iff known name).mp isFound)
    | some pair =>
      obtain ⟨found, existing⟩ := pair
      have same := singleValued_of_nodup distinct name existing value (mem_of_find? isFound) member
      exact ⟨_, rfl, same⟩

/-! ### Taking a pair in -/

variable [DecidableEq α]

/-- Take a pair in, unless its name has another value. -/
def assign (known : List (κ × α)) (pair : κ × α) : Option (List (κ × α)) :=
  match known.find? (·.1 == pair.1) with
  | some (_, existing) => if existing = pair.2 then some known else none
  | none => some (known ++ [pair])

/-- Take pairs in, one after the other. -/
def assignAll (known : List (κ × α)) : List (κ × α) → Option (List (κ × α))
  | [] => some known
  | pair :: rest => (assign known pair).bind fun known => assignAll known rest

theorem mem_assign {known known' : List (κ × α)} {pair : κ × α}
    (assigned : assign known pair = some known') (other : κ × α) :
    other ∈ known' ↔ other ∈ known ∨ other = pair := by
  unfold assign at assigned
  cases isFound : known.find? (·.1 == pair.1) with
  | none =>
    rw [isFound] at assigned
    obtain rfl := Option.some.inj assigned
    rw [List.mem_append, List.mem_singleton]
  | some entry =>
    obtain ⟨found, existing⟩ := entry
    rw [isFound] at assigned
    dsimp only at assigned
    split_ifs at assigned with same
    obtain rfl := Option.some.inj assigned
    have member := mem_of_find? isFound
    rw [same] at member
    exact ⟨.inl, fun either => either.elim id fun isPair => isPair ▸ member⟩

theorem nodup_assign {known known' : List (κ × α)} {pair : κ × α}
    (distinct : (known.map Prod.fst).Nodup) (assigned : assign known pair = some known') :
    (known'.map Prod.fst).Nodup := by
  unfold assign at assigned
  cases isFound : known.find? (·.1 == pair.1) with
  | none =>
    rw [isFound] at assigned
    obtain rfl := Option.some.inj assigned
    have fresh := (find?_eq_none_iff known pair.1).mp isFound
    rw [List.map_append, List.map_singleton, List.nodup_append]
    refine ⟨distinct, List.nodup_singleton _, fun name member other isNew => ?_⟩
    rw [List.mem_singleton.mp isNew]
    rintro rfl
    exact fresh member
  | some entry =>
    rw [isFound] at assigned
    dsimp only at assigned
    split_ifs at assigned
    obtain rfl := Option.some.inj assigned
    exact distinct

/-- A pair is refused only when its name has another value. -/
theorem exists_assign {known : List (κ × α)} {pair : κ × α}
    (agrees : ∀ value, (pair.1, value) ∈ known → value = pair.2) :
    ∃ known', assign known pair = some known' := by
  unfold assign
  cases isFound : known.find? (·.1 == pair.1) with
  | none => exact ⟨_, rfl⟩
  | some entry => exact ⟨known, if_pos (agrees entry.2 (mem_of_find? isFound))⟩

/-! ### Many pairs -/

theorem assignAll_append (known pairs rest : List (κ × α)) :
    assignAll known (pairs ++ rest) =
      (assignAll known pairs).bind fun known => assignAll known rest := by
  induction pairs generalizing known with
  | nil => rfl
  | cons pair others inductionHypothesis =>
    rw [List.cons_append, assignAll, assignAll, Option.bind_assoc]
    exact Option.bind_congr fun known' _ => inductionHypothesis known'

/-- What is collected is what was there and the pairs. -/
theorem mem_assignAll {known known' pairs : List (κ × α)}
    (assigned : assignAll known pairs = some known') (other : κ × α) :
    other ∈ known' ↔ other ∈ known ∨ other ∈ pairs := by
  induction pairs generalizing known with
  | nil =>
    obtain rfl := Option.some.inj assigned
    simp only [List.not_mem_nil, or_false]
  | cons pair rest inductionHypothesis =>
    obtain ⟨between, first, later⟩ := Option.bind_eq_some_iff.mp assigned
    rw [inductionHypothesis later, mem_assign first, List.mem_cons, or_assoc]

theorem nodup_assignAll {known known' pairs : List (κ × α)}
    (distinct : (known.map Prod.fst).Nodup) (assigned : assignAll known pairs = some known') :
    (known'.map Prod.fst).Nodup := by
  induction pairs generalizing known with
  | nil =>
    obtain rfl := Option.some.inj assigned
    exact distinct
  | cons pair rest inductionHypothesis =>
    obtain ⟨between, first, later⟩ := Option.bind_eq_some_iff.mp assigned
    exact inductionHypothesis (nodup_assign distinct first) later

/-- What is collected from nothing has each name once. -/
theorem nodup_collected {known pairs : List (κ × α)} (assigned : assignAll [] pairs = some known) :
    (known.map Prod.fst).Nodup :=
  nodup_assignAll (by rw [List.map_nil]; exact List.nodup_nil) assigned

theorem exists_assignAll {known pairs : List (κ × α)} (single : SingleValued (known ++ pairs)) :
    ∃ known', assignAll known pairs = some known' := by
  induction pairs generalizing known with
  | nil => exact ⟨known, rfl⟩
  | cons pair rest inductionHypothesis =>
    obtain ⟨between, first⟩ : ∃ between, assign known pair = some between :=
      exists_assign fun value member => single pair.1 value pair.2
        (List.mem_append_left _ member) (List.mem_append_right _ List.mem_cons_self)
    have carried : ∀ {other : κ × α}, other ∈ between ++ rest → other ∈ known ++ pair :: rest := by
      intro other member
      rw [List.mem_append, mem_assign first] at member
      simpa only [List.mem_append, List.mem_cons, or_assoc] using member
    obtain ⟨known', later⟩ := inductionHypothesis fun name one two isOne isTwo =>
      single name one two (carried isOne) (carried isTwo)
    exact ⟨known', Option.bind_eq_some_iff.mpr ⟨between, first, later⟩⟩

/-- Pairs are collected when no name stands in them with two values. -/
theorem exists_assignAll_nil_iff (pairs : List (κ × α)) :
    (∃ known, assignAll [] pairs = some known) ↔ SingleValued pairs := by
  constructor
  · rintro ⟨known, assigned⟩ name first second isFirst isSecond
    have collected := fun other => (mem_assignAll assigned other).mpr ∘ Or.inr
    exact singleValued_of_nodup (nodup_collected assigned) name first second
      (collected _ isFirst) (collected _ isSecond)
  · intro single
    exact exists_assignAll single

/-- The names of what was collected stand for the pairs. -/
theorem lookup_assignAll_nil {known pairs : List (κ × α)}
    (assigned : assignAll [] pairs = some known) (name : κ) (value : α) :
    lookup known name = some value ↔ (name, value) ∈ pairs := by
  rw [lookup_eq_some_iff (nodup_collected assigned), mem_assignAll assigned]
  simp only [List.not_mem_nil, false_or]

end Assignments
