/-
This file is about the entity index.

A node is indexed under the entities that a walk over its predicate meets, once for
each time it meets one. The walk passes by the named arguments of compounds, so an
entity that a node mentions only there is not indexed, and an entity that it meets
twice is indexed twice. A lookup by an entity is therefore exact as long as every
active node is indexed once under each entity that it mentions.
-/

import Factum.Answers

namespace Factum

open Stateful

variable {F : Type}

/-! ### The entities that a node mentions -/

mutual

/-- The entities that a term mentions, at any depth. -/
def Term.entities : Term → List EntityId
  | .ent entity => [entity]
  | .compound pred => pred.entities
  | .list items => Term.entitiesList items
  | .var _ => []
  | .lit _ => []

/-- The entities that a predicate mentions, in positional and in named arguments. -/
def Predicate.entities : Predicate → List EntityId
  | ⟨_, args, named⟩ => Term.entitiesList args ++ Term.entitiesNamed named

/-- The entities that terms mention. -/
def Term.entitiesList : List Term → List EntityId
  | [] => []
  | term :: rest => term.entities ++ Term.entitiesList rest

/-- The entities that named arguments mention. -/
def Term.entitiesNamed : List (String × Term) → List EntityId
  | [] => []
  | (_, term) :: rest => term.entities ++ Term.entitiesNamed rest

end

mutual

/-- Only entities that a term mentions are met by the walk. -/
theorem Term.mem_entities_of_indexed : ∀ (term : Term) {entity : EntityId},
    entity ∈ term.indexedEntities → entity ∈ term.entities
  | .ent _, _, member => member
  | .compound ⟨_, args, _⟩, _, member => by
    rw [indexedEntities] at member
    rw [entities, Predicate.entities, List.mem_append]
    exact .inl (mem_entitiesList_of_indexed args member)
  | .list items, _, member => by
    rw [indexedEntities] at member
    rw [entities]
    exact mem_entitiesList_of_indexed items member
  | .var _, _, member => member
  | .lit _, _, member => member

theorem Term.mem_entitiesList_of_indexed : ∀ (terms : List Term) {entity : EntityId},
    entity ∈ indexedEntitiesList terms → entity ∈ entitiesList terms
  | [], _, member => member
  | term :: rest, _, member => by
    rw [indexedEntitiesList, List.mem_append] at member
    rw [entitiesList, List.mem_append]
    rcases member with first | later
    · exact .inl (mem_entities_of_indexed term first)
    · exact .inr (mem_entitiesList_of_indexed rest later)

end

theorem Term.mem_entitiesNamed_of_indexed : ∀ (named : List (String × Term)) {entity : EntityId},
    entity ∈ indexedEntitiesList (named.map Prod.snd) → entity ∈ entitiesNamed named
  | [], _, member => member
  | (_, term) :: rest, _, member => by
    rw [List.map_cons, indexedEntitiesList, List.mem_append] at member
    rw [entitiesNamed, List.mem_append]
    rcases member with first | later
    · exact .inl (mem_entities_of_indexed term first)
    · exact .inr (mem_entitiesNamed_of_indexed rest later)

theorem Node.mem_entities_of_indexed (node : Node F) {entity : EntityId}
    (member : entity ∈ node.indexedEntities) : entity ∈ node.predicate.entities := by
  rw [indexedEntities] at member
  cases isPred : node.predicate with
  | mk head args named =>
  rw [isPred] at member
  rw [Predicate.entities, List.mem_append]
  rcases List.mem_append.mp member with positional | byKey
  · exact .inl (Term.mem_entitiesList_of_indexed args positional)
  · exact .inr (Term.mem_entitiesNamed_of_indexed named byKey)

/-- An entity whose name is free of zero bytes. -/
def EntityId.NulFree (entity : EntityId) : Prop := (0 : UInt8) ∉ Utf8.ofString entity.asStr

instance (entity : EntityId) : Decidable entity.NulFree :=
  inferInstanceAs (Decidable ((0 : UInt8) ∉ Utf8.ofString entity.asStr))

/-- A node that mentions only entities whose names are free of zero bytes. -/
def Node.MentionsNulFree (node : Node F) : Prop :=
  ∀ entity ∈ node.predicate.entities, entity.NulFree

/-- A node that is indexed once under each entity that it mentions. -/
def Node.IndexedOnce (node : Node F) : Prop :=
  ∀ entity ∈ node.predicate.entities, node.indexedEntities.count entity = 1

/-! ### Keys of the entity index -/

/-- Keys without zero bytes are told apart by the scans. -/
theorem isPrefixOf_encodeIndexKey_iff {key other : List UInt8} (nulFree : (0 : UInt8) ∉ key)
    (otherNulFree : (0 : UInt8) ∉ other) (id : NodeId) :
    (encodeIndexPrefix key).isPrefixOf (encodeIndexKey other id) = true ↔ key = other := by
  have nonzero : ∀ {bytes : List UInt8}, (0 : UInt8) ∉ bytes →
      ∀ byte ∈ bytes, (byte != 0) = true := by
    intro bytes free byte member
    rw [bne_iff_ne]
    rintro rfl
    exact free member
  constructor
  · intro inScan
    obtain ⟨rest, whole⟩ := List.isPrefixOf_iff_prefix.mp inScan
    have before := congrArg (List.takeWhile (· != 0)) whole
    rw [encodeIndexPrefix, encodeIndexKey, List.append_assoc,
      List.takeWhile_append_of_pos (nonzero nulFree),
      List.takeWhile_append_of_pos (nonzero otherNulFree)] at before
    simpa using before
  · rintro rfl
    exact encodeIndexPrefix_isPrefixOf key id

/-- A scan for an entity lists a node once for each time it is indexed under the entity. -/
theorem length_scanEntries_byEntity (registry : MorphemeRegistry) {entity : EntityId}
    (nulFree : entity.NulFree) {node : Node F} (mentions : node.MentionsNulFree) :
    (scanEntries registry .byEntity (Utf8.ofString entity.asStr) node).length =
      node.indexedEntities.count entity := by
  rw [length_scanEntries, entryKeys_byEntity, List.countP_map, List.count]
  refine List.countP_congr fun other member => ?_
  have otherNulFree := mentions other (node.mem_entities_of_indexed member)
  rw [Function.comp_apply, isPrefixOf_encodeIndexKey_iff nulFree otherNulFree, beq_iff_eq]
  constructor
  · intro same
    exact (congrArg EntityId.mk (Utf8.ofString_injective same)).symm
  · rintro rfl
    rfl

namespace FactumStore

/-- A lookup by an entity answers exactly the stored active nodes that mention it, each
once. -/
def LookupExact (store : MemStore F) (entity : EntityId) : Prop :=
  ∃ found, lookupByEntity entity store = .ok found store ∧ (found.map Node.id).Nodup ∧
    ∀ node, node ∈ found ↔ store.nodeAt node.id = some node ∧ node.status = .active ∧
      entity ∈ node.predicate.entities

/-- A lookup by an entity is exact when and only when every active node that mentions it is
indexed under it once. -/
theorem lookupExact_iff {store : MemStore F} (consistent : store.Consistent)
    (plain : store.EveryActive Node.MentionsNulFree) {entity : EntityId}
    (nulFree : entity.NulFree) :
    store.LookupExact entity ↔ store.EveryActive fun node =>
      entity ∈ node.predicate.entities → node.indexedEntities.count entity = 1 := by
  have ran := lookupIndex_run store .byEntity entity.asStr
  have listed : ∀ id node, store.nodeAt id = some node → node.status = .active →
      (store.scan .byEntity (Utf8.ofString entity.asStr)).count id =
        node.indexedEntities.count entity := by
    intro id node stored active
    rw [count_scan consistent, stored, Option.map_some, Option.getD_some,
      length_scanEntries_byEntity _ nulFree (plain id node stored active)]
  have ids := map_id_active consistent.keyed (store.scan .byEntity (Utf8.ofString entity.asStr))
  constructor
  · rintro ⟨found, answered, distinct, isFound⟩ id node stored active mentions
    rw [lookupByEntity, ran] at answered
    injection answered with isAnswer
    rw [← isAnswer, ids] at distinct
    have isActive : (store.activeAt id).isSome = true :=
      (activeAt_isSome_iff store id).mpr ⟨node, stored, active⟩
    have atMost := List.nodup_iff_count_le_one.mp distinct id
    rw [List.count_filter (p := fun id => (store.activeAt id).isSome) isActive,
      listed id node stored active] at atMost
    have member := (isFound node).mpr
      ⟨by rw [consistent.keyed id node stored]; exact stored, active, mentions⟩
    rw [← isAnswer, List.mem_filterMap] at member
    obtain ⟨id', isListed, found'⟩ := member
    have stored' := ((activeAt_eq_some store id' node).mp found').1
    have sameId : id' = id :=
      (consistent.keyed id' node stored').symm.trans (consistent.keyed id node stored)
    have atLeast := List.count_pos_iff.mpr isListed
    rw [sameId, listed id node stored active] at atLeast
    omega
  · intro once
    refine ⟨_, ran, ?_, fun node => ?_⟩
    · rw [ids, List.nodup_iff_count_le_one]
      intro id
      by_cases isActive : (store.activeAt id).isSome = true
      · obtain ⟨node, stored, active⟩ := (activeAt_isSome_iff store id).mp isActive
        rw [List.count_filter (p := fun id => (store.activeAt id).isSome) isActive,
          listed id node stored active]
        by_cases mentions : entity ∈ node.predicate.entities
        · exact (once id node stored active mentions).le
        · rw [List.count_eq_zero_of_not_mem fun member =>
            mentions (node.mem_entities_of_indexed member)]
          exact Nat.zero_le 1
      · rw [List.count_eq_zero_of_not_mem (a := id) ?_]
        · exact Nat.zero_le 1
        · exact fun member => isActive (List.mem_filter.mp member).2
    · rw [List.mem_filterMap]
      simp only [activeAt_eq_some]
      constructor
      · rintro ⟨id, isListed, stored, active⟩
        have positive := List.count_pos_iff.mpr isListed
        rw [listed id node stored active] at positive
        refine ⟨?_, active, node.mem_entities_of_indexed (List.count_pos_iff.mp positive)⟩
        rw [consistent.keyed id node stored]
        exact stored
      · rintro ⟨stored, active, mentions⟩
        refine ⟨node.id, List.count_pos_iff.mp ?_, stored, active⟩
        rw [listed node.id node stored active, once node.id node stored active mentions]
        exact Nat.zero_lt_one

/-- A call that offers only nodes whose entities have names free of zero bytes. -/
def OffersNulFreeEntities (call : Call F) : Prop := ∀ node ∈ call.offered, node.MentionsNulFree

/-- Throughout a run the lookups by entity are exact when and only when every call stores
only active nodes that are indexed once under each entity that they mention. -/
theorem run_lookupExact_iff (nodeOrder : Hash.Order NodeId)
    (hasher : Cf → Hash.Order (List UInt8)) (registry : MorphemeRegistry) (calls : List (Call F))
    (nulFree : ∀ call ∈ calls, OffersNulFreeEntities call) :
    (∀ early, early <+: calls → ∀ entity : EntityId, entity.NulFree →
        ((MemStore.empty nodeOrder hasher registry).run early).LookupExact entity) ↔
      Along (StoresOnly Node.IndexedOnce) (MemStore.empty nodeOrder hasher registry) calls := by
  have plain := (run_everyActive_iff Node.MentionsNulFree nodeOrder hasher registry calls).mpr
    (along_of_mem (fun call member _ _ node offered _ => nulFree call member node offered) _)
  rw [← run_everyActive_iff Node.IndexedOnce nodeOrder hasher registry calls]
  refine forall_congr' fun early => forall_congr' fun isEarly => ?_
  have consistent := ((Reachable.empty (F := F) nodeOrder hasher registry).run early).consistent
  have exactIff := fun {entity : EntityId} (free : entity.NulFree) =>
    lookupExact_iff consistent (plain early isEarly) free
  constructor
  · intro exact_ id node stored active entity mentions
    have free := plain early isEarly id node stored active entity mentions
    exact (exactIff free).mp (exact_ entity free) id node stored active mentions
  · intro once entity free
    exact (exactIff free).mpr fun id node stored active =>
      once id node stored active entity

/-! ### A mention that the walk passes by -/

/-- A fact that mentions an entity in a named argument of a compound. -/
def tucked : Node Rat :=
  Node.new "n1" ⟨.name "says", [.compound ⟨.name "about", [], [("topic", .ent ⟨"A"⟩)]⟩], []⟩

/-- The fact is stored and active and mentions the entity, and the lookup does not find it. -/
theorem lookupByEntity_misses_tucked :
    (∀ call ∈ [Call.insert tucked], OffersNulFreeEntities call) ∧ (EntityId.mk "A").NulFree ∧
      ¬ (blank.run [.insert tucked]).LookupExact ⟨"A"⟩ := by
  refine ⟨fun call member node offered => ?_, by decide, ?_⟩
  · obtain rfl := List.mem_singleton.mp member
    obtain rfl := List.mem_singleton.mp offered
    exact List.forall_mem_singleton.mpr (by decide)
  · rintro ⟨found, answered, _, isFound⟩
    have member := (isFound tucked).mpr ⟨by decide, by decide, by decide⟩
    have missed : answer (lookupByEntity ⟨"A"⟩) (blank.run [.insert tucked]) = .ok [] := by decide
    rw [answer_ok answered] at missed
    rw [Except.ok.inj missed] at member
    exact List.not_mem_nil member

/-- Facts that mention two entities each once are found. -/
theorem run_lookupExact_iff_premise :
    (∀ early, early <+: [.insert premise, .retractWithLimit ⟨"n1"⟩ 10] →
        ∀ entity : EntityId, entity.NulFree → (blank.run early).LookupExact entity) ↔
      Along (StoresOnly Node.IndexedOnce) blank [.insert premise, .retractWithLimit ⟨"n1"⟩ 10] := by
  refine run_lookupExact_iff _ _ _ _ fun call member node offered => ?_
  rcases List.mem_pair.mp member with rfl | rfl
  · obtain rfl := List.mem_singleton.mp offered
    exact List.forall_mem_cons.mpr ⟨by decide, List.forall_mem_singleton.mpr (by decide)⟩
  · exact absurd offered List.not_mem_nil

end FactumStore

end Factum
