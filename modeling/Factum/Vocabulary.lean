/-
This file is about runs of the morpheme registry.

A name that is new gets the number of definitions as its identifier, and its definition is
put at that place with the identifier in it. So before the numbers wrap around the table of
names and the list of definitions are inverse to each other, and what was once entered in
them stays. A registry with seeds is the run that registers them.
-/

import Factum.Morphemes

namespace Factum

namespace MorphemeRegistry

/-! ### Identifiers of names -/

/-- A registry that registrations build. -/
inductive Registered : MorphemeRegistry → Prop
  | new : Registered .new
  | register {registry : MorphemeRegistry} (registered : Registered registry)
      (definition : MorphemeDef) : Registered (registry.register definition).2

/-- Every identifier indexes the definition of its name. -/
def Indexes (registry : MorphemeRegistry) : Prop :=
  ∀ name id, registry.byName.lookup name = some id →
    ∃ i, (registry.byId[i]?.map MorphemeDef.name) = some name ∧ id = ⟨UInt32.ofNat i⟩

/-- Every definition is filed under its name, with its place as the identifier. -/
def Filed (registry : MorphemeRegistry) : Prop :=
  ∀ i definition, registry.byId[i]? = some definition →
    definition.id = ⟨UInt32.ofNat i⟩ ∧
      registry.byName.lookup definition.name = some ⟨UInt32.ofNat i⟩

/-- A later registry keeps the definitions and the identifiers of the names. -/
structure Extends (registry later : MorphemeRegistry) : Prop where
  definitions : registry.byId <+: later.byId
  names : ∀ name id, registry.byName.lookup name = some id → later.byName.lookup name = some id

theorem Extends.refl (registry : MorphemeRegistry) : registry.Extends registry :=
  ⟨List.prefix_refl _, fun _ _ => id⟩

theorem Extends.trans {first second third : MorphemeRegistry} (extends_ : first.Extends second)
    (extends' : second.Extends third) : first.Extends third :=
  ⟨extends_.definitions.trans extends'.definitions,
    fun name id isId => extends'.names name id (extends_.names name id isId)⟩

theorem register_of_resolve {registry : MorphemeRegistry} {definition : MorphemeDef}
    {id : MorphemeId} (isId : registry.resolve definition.name = some id) :
    registry.register definition = (id, registry) := by
  rw [resolve] at isId
  rw [register, isId]

theorem extends_register (registry : MorphemeRegistry) (definition : MorphemeDef) :
    registry.Extends (registry.register definition).2 := by
  rw [register]
  cases found : registry.byName.lookup definition.name with
  | some id => exact .refl registry
  | none =>
    refine ⟨List.prefix_append _ _, fun name id isId => ?_⟩
    have isOld : name ≠ definition.name := fun same => by
      rw [same, found] at isId
      cases isId
    rw [AList.lookup_insert_ne isOld]
    exact isId

theorem length_register_le (registry : MorphemeRegistry) (definition : MorphemeDef) :
    (registry.register definition).2.byId.length ≤ registry.byId.length + 1 := by
  rw [register]
  cases registry.byName.lookup definition.name with
  | some id => exact Nat.le_succ _
  | none => exact (List.length_append).le

theorem Registered.indexes {registry : MorphemeRegistry} (registered : Registered registry) :
    registry.Indexes := by
  induction registered with
  | new =>
    intro name id found
    rw [MorphemeRegistry.new, AList.lookup_empty] at found
    cases found
  | @register registry _ definition inductionHypothesis =>
    unfold MorphemeRegistry.register
    cases found : registry.byName.lookup definition.name with
    | some id => exact inductionHypothesis
    | none =>
      intro name id isId
      dsimp only at isId ⊢
      by_cases isNew : name = definition.name
      · rw [isNew, AList.lookup_insert] at isId
        refine ⟨registry.byId.length, ?_, (Option.some.inj isId).symm⟩
        rw [List.getElem?_concat_length, isNew]
        rfl
      · rw [AList.lookup_insert_ne isNew] at isId
        obtain ⟨i, isName, rfl⟩ := inductionHypothesis name id isId
        obtain ⟨definition', isAt, rfl⟩ := Option.map_eq_some_iff.mp isName
        refine ⟨i, ?_, rfl⟩
        rw [List.getElem?_append_left (List.getElem?_eq_some_iff.mp isAt).1, isAt]
        rfl

theorem Registered.filed {registry : MorphemeRegistry} (registered : Registered registry) :
    registry.Filed := by
  induction registered with
  | new =>
    intro i definition isAt
    rw [MorphemeRegistry.new, List.getElem?_nil] at isAt
    cases isAt
  | @register registry _ definition inductionHypothesis =>
    unfold MorphemeRegistry.register
    cases found : registry.byName.lookup definition.name with
    | some id => exact inductionHypothesis
    | none =>
      intro i definition' isAt
      dsimp only at isAt ⊢
      rcases Nat.lt_or_ge i registry.byId.length with isOld | isNew
      · rw [List.getElem?_append_left isOld] at isAt
        obtain ⟨isId, isFiled⟩ := inductionHypothesis i definition' isAt
        have other : definition'.name ≠ definition.name := fun same => by
          rw [same, found] at isFiled
          cases isFiled
        exact ⟨isId, by rw [AList.lookup_insert_ne other, isFiled]⟩
      · obtain ⟨isLast, rfl⟩ := List.getElem?_eq_some_iff.mp isAt
        have isLength : i = registry.byId.length := by
          rw [List.length_append, List.length_singleton] at isLast
          omega
        subst isLength
        rw [List.getElem_concat_length rfl]
        exact ⟨rfl, AList.lookup_insert _⟩

/-- A place that an identifier can name is the place that its identifier names. -/
theorem lookupId_ofNat {registry : MorphemeRegistry} (few : registry.byId.length ≤ 2 ^ 32)
    {i : Nat} {definition : MorphemeDef} (isAt : registry.byId[i]? = some definition) :
    registry.lookupId ⟨UInt32.ofNat i⟩ = some definition := by
  have isThere : i < registry.byId.length := (List.getElem?_eq_some_iff.mp isAt).1
  rw [lookupId, UInt32.toNat_ofNat_of_lt' (isThere.trans_le few)]
  exact isAt

/-- Before the identifiers wrap around, a name has an identifier exactly if the definition at
that place has the name. -/
theorem Registered.resolve_iff {registry : MorphemeRegistry} (registered : Registered registry)
    (few : registry.byId.length ≤ 2 ^ 32) (name : String) (id : MorphemeId) :
    registry.resolve name = some id ↔
      ∃ definition, registry.lookupId id = some definition ∧ definition.name = name := by
  constructor
  · intro isId
    obtain ⟨i, isName, rfl⟩ := registered.indexes name id isId
    obtain ⟨definition, isAt, isName⟩ := Option.map_eq_some_iff.mp isName
    exact ⟨definition, lookupId_ofNat few isAt, isName⟩
  · rintro ⟨definition, isAt, rfl⟩
    obtain ⟨_, isFiled⟩ := registered.filed _ definition isAt
    rw [UInt32.ofNat_toNat] at isFiled
    exact isFiled

/-- Registrations give no identifier to two names before the identifiers wrap around. -/
theorem Registered.resolve_injective {registry : MorphemeRegistry}
    (registered : Registered registry) (few : registry.byId.length ≤ 2 ^ 32)
    {name name' : String} {id : MorphemeId} (isId : registry.resolve name = some id)
    (isId' : registry.resolve name' = some id) : name = name' := by
  obtain ⟨definition, isAt, rfl⟩ := (registered.resolve_iff few name id).mp isId
  obtain ⟨definition', isAt', rfl⟩ := (registered.resolve_iff few name' id).mp isId'
  rw [Option.some.inj (isAt.symm.trans isAt')]

/-! ### Runs -/

/-- A call that registers a morpheme. -/
inductive Call where
  | register (definition : MorphemeDef)
  | registerName (name : String) (kind : MorphemeKind)

/-- The name that a call registers. -/
def Call.name : Call → String
  | .register definition => definition.name
  | .registerName name _ => name

/-- What a call returns, and the registry after it. -/
def called (registry : MorphemeRegistry) : Call → MorphemeId × MorphemeRegistry
  | .register definition => registry.register definition
  | .registerName name kind => registry.registerName name kind

/-- The registry after some calls. -/
def run (registry : MorphemeRegistry) (calls : List Call) : MorphemeRegistry :=
  calls.foldl (fun registry call => (registry.called call).2) registry

/-- Every call registers a definition with its name. -/
theorem called_eq (registry : MorphemeRegistry) (call : Call) : ∃ definition : MorphemeDef,
    definition.name = call.name ∧ registry.called call = registry.register definition := by
  cases call with
  | register definition => exact ⟨definition, rfl, rfl⟩
  | registerName name kind => exact ⟨_, rfl, rfl⟩

theorem Registered.run {registry : MorphemeRegistry} (calls : List Call)
    (registered : Registered registry) : Registered (registry.run calls) := by
  induction calls generalizing registry with
  | nil => exact registered
  | cons call rest inductionHypothesis =>
    obtain ⟨definition, _, isCall⟩ := registry.called_eq call
    have next : Registered (registry.called call).2 := by
      rw [isCall]
      exact registered.register definition
    exact inductionHypothesis next

theorem extends_run (registry : MorphemeRegistry) (calls : List Call) :
    registry.Extends (registry.run calls) := by
  induction calls generalizing registry with
  | nil => exact .refl registry
  | cons call rest inductionHypothesis =>
    obtain ⟨definition, _, isCall⟩ := registry.called_eq call
    refine Extends.trans ?_ (inductionHypothesis (registry.called call).2)
    rw [isCall]
    exact registry.extends_register definition

theorem length_run_le (registry : MorphemeRegistry) (calls : List Call) :
    (registry.run calls).byId.length ≤ registry.byId.length + calls.length := by
  induction calls generalizing registry with
  | nil => exact le_rfl
  | cons call rest inductionHypothesis =>
    obtain ⟨definition, _, isCall⟩ := registry.called_eq call
    have later := inductionHypothesis (registry.called call).2
    have step := registry.length_register_le definition
    rw [← isCall] at step
    rw [List.length_cons]
    show ((registry.called call).2.run rest).byId.length ≤ _
    omega

/-! ### The bijection -/

/-- The tables of a registry are inverse to each other. -/
structure Bijective (registry : MorphemeRegistry) : Prop where
  resolve_iff : ∀ name id, registry.resolve name = some id ↔
    ∃ definition, registry.lookupId id = some definition ∧ definition.name = name
  ownId : ∀ id definition, registry.lookupId id = some definition → definition.id = id
  names : (registry.byId.map MorphemeDef.name).Nodup
  /-- The identifiers count the definitions from 0. -/
  dense : ∀ id, (∃ name, registry.resolve name = some id) ↔
    id.index.toNat < registry.byId.length
  /-- To register a name that exists changes nothing. -/
  again : ∀ call id, registry.resolve call.name = some id → registry.called call = (id, registry)

theorem Registered.bijective {registry : MorphemeRegistry} (registered : Registered registry)
    (few : registry.byId.length ≤ 2 ^ 32) : registry.Bijective where
  resolve_iff := registered.resolve_iff few
  ownId := by
    intro id definition isAt
    obtain ⟨isId, _⟩ := registered.filed _ definition isAt
    rw [isId, UInt32.ofNat_toNat]
  names := by
    rw [List.Nodup, List.pairwise_map, List.pairwise_iff_getElem]
    intro i j isThere isThere' less same
    obtain ⟨_, isFiled⟩ := registered.filed i _ (List.getElem?_eq_getElem isThere)
    obtain ⟨_, isFiled'⟩ := registered.filed j _ (List.getElem?_eq_getElem isThere')
    rw [same, isFiled'] at isFiled
    have sameIndex := congrArg UInt32.toNat (MorphemeId.mk.inj (Option.some.inj isFiled))
    rw [UInt32.toNat_ofNat_of_lt' (isThere.trans_le few),
      UInt32.toNat_ofNat_of_lt' (isThere'.trans_le few)] at sameIndex
    exact less.ne' sameIndex
  dense := by
    intro id
    constructor
    · rintro ⟨name, isId⟩
      obtain ⟨_, isAt, _⟩ := (registered.resolve_iff few name id).mp isId
      exact (List.getElem?_eq_some_iff.mp isAt).1
    · intro isThere
      exact ⟨_, (registered.resolve_iff few _ id).mpr ⟨_, List.getElem?_eq_getElem isThere, rfl⟩⟩
  again := by
    intro call id isId
    obtain ⟨definition, isName, isCall⟩ := registry.called_eq call
    rw [isCall]
    exact register_of_resolve (isName ▸ isId)

/-- What a later registry keeps of the identifiers that were given. -/
structure Lasting (early late : MorphemeRegistry) : Prop where
  /-- An identifier that was given to a name is its identifier and no other's. -/
  given : ∀ name id, early.resolve name = some id →
    ∀ name', late.resolve name' = some id ↔ name' = name
  unchanged : ∀ name id, early.resolve name = some id → late.resolve name = some id
  definitions : ∀ id definition, early.lookupId id = some definition →
    late.lookupId id = some definition

theorem Registered.lasting {early late : MorphemeRegistry} (registered : Registered late)
    (extends_ : early.Extends late) (few : late.byId.length ≤ 2 ^ 32) : early.Lasting late where
  given := by
    intro name id isId name'
    have still : late.resolve name = some id := extends_.names name id isId
    refine ⟨fun isId' => registered.resolve_injective few isId' still, ?_⟩
    rintro rfl
    exact still
  unchanged := extends_.names
  definitions := by
    intro id definition isAt
    obtain ⟨rest, isLate⟩ := extends_.definitions
    rw [lookupId, ← isLate, List.getElem?_append_left (List.getElem?_eq_some_iff.mp isAt).1]
    exact isAt

/-- The identifier that a call returns is the one that its name has after it. -/
theorem resolve_called (registry : MorphemeRegistry) (call : Call) :
    (registry.called call).2.resolve call.name = some (registry.called call).1 := by
  obtain ⟨definition, isName, isCall⟩ := registry.called_eq call
  rw [isCall, ← isName, register]
  cases found : registry.byName.lookup definition.name with
  | some id => exact found
  | none => exact AList.lookup_insert _

theorem run_append (registry : MorphemeRegistry) (early late : List Call) :
    registry.run (early ++ late) = (registry.run early).run late := List.foldl_append

/-- What holds of all calls on a registry that starts empty. -/
structure Consistent (calls : List Call) : Prop where
  tables : (new.run calls).Bijective
  lasting : ∀ early, early <+: calls → (new.run early).Lasting (new.run calls)
  /-- A call returns the identifier that its name has after it. -/
  returned : ∀ early call, early ++ [call] <+: calls →
    (new.run (early ++ [call])).resolve call.name = some ((new.run early).called call).1

/-- Fewer than `2 ^ 32` calls build a registry whose tables are inverse to each other, and which
keeps what each of them entered. -/
theorem run_consistent (calls : List Call) (few : calls.length < 2 ^ 32) :
    Consistent calls := by
  have small : (new.run calls).byId.length ≤ 2 ^ 32 := by
    have length := length_run_le new calls
    rw [new, List.length_nil] at length
    exact length.trans (by omega)
  have registered := Registered.new.run calls
  refine ⟨registered.bijective small, ?_, fun early call _ => ?_⟩
  · rintro early ⟨late, rfl⟩
    refine registered.lasting ?_ small
    rw [run_append]
    exact extends_run _ late
  · rw [run_append]
    exact resolve_called _ call

/-- Two names, of which the first is registered twice. -/
def repeated : List Call :=
  [.registerName "acquire" .relation, .registerName "project" .entity,
    .register ⟨⟨7⟩, "acquire", .action, ⟨"-> T"⟩, "", .adopted⟩]

theorem repeated_consistent : Consistent repeated := run_consistent repeated (by decide)

end MorphemeRegistry

end Factum
