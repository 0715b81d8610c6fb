/-
This file is about queries that look their candidates up by an entity.

The entity filter of a query is a shortcut: when the pattern has the entity as a
positional argument, every node that matches is listed by the entity index too. It
may be listed more than once, since a node is entered there for each mention, and the
two indices list their nodes in different orders. Which orders these are is up to the
hash maps, so the two answers are compared over all stores with the same data: they
agree exactly when the matches are settled.
-/

import Factum.Entities
import Factum.Orders
import Factum.Settled
import Factum.Substitution

namespace Factum

open Stateful Assignments

variable {F : Type}

/-! ### Matches mention the entities of the pattern -/

theorem Term.mem_of_fitsList {entity : EntityId} : ∀ {patterns concretes : List Term},
    FitsList patterns concretes → .ent entity ∈ patterns → .ent entity ∈ concretes
  | [], [], _, member => by cases member
  | _ :: _, _ :: _, ⟨fits, restFits⟩, member => by
    rcases List.mem_cons.mp member with rfl | later
    · rw [Term.Fits] at fits
      rw [fits]
      exact List.mem_cons_self
    · exact List.mem_cons_of_mem _ (mem_of_fitsList restFits later)

theorem Term.mem_indexedEntitiesList_of_mem {entity : EntityId} : ∀ {terms : List Term},
    .ent entity ∈ terms → entity ∈ indexedEntitiesList terms
  | [], member => by cases member
  | term :: rest, member => by
    rw [indexedEntitiesList, List.mem_append]
    rcases List.mem_cons.mp member with rfl | later
    · exact .inl (List.mem_singleton.mpr rfl)
    · exact .inr (mem_indexedEntitiesList_of_mem later)

/-- A node that matches a pattern is indexed under its positional entities. -/
theorem mem_indexedEntities_of_matchPattern {pattern : Predicate} {node : Node F}
    {bindings : Bindings} (matched : matchPattern pattern node.predicate = some bindings)
    {entity : EntityId} (ground : .ent entity ∈ pattern.args) :
    entity ∈ node.indexedEntities := by
  obtain ⟨fits, _⟩ := (matchPattern_eq_some_iff _ _ _).mp matched
  obtain ⟨head, args, named⟩ := pattern
  obtain ⟨_, _, argsFit, _, _⟩ := fits
  rw [Node.indexedEntities, List.mem_append]
  exact .inl (Term.mem_indexedEntitiesList_of_mem (Term.mem_of_fitsList argsFit ground))

/-- How often the scan for an entity lists a node. -/
def Node.listings (node : Node F) (entity : EntityId) : Nat :=
  node.indexedEntities.countP fun other =>
    (encodeIndexPrefix (Utf8.ofString entity.asStr)).isPrefixOf
      (encodeIndexKey (Utf8.ofString other.asStr) node.id)

theorem Node.listings_pos {node : Node F} {entity : EntityId}
    (member : entity ∈ node.indexedEntities) : 0 < node.listings entity :=
  List.countP_pos_iff.mpr ⟨entity, member, encodeIndexPrefix_isPrefixOf _ _⟩

namespace FactumStore

/-! ### The matches of the two paths -/

theorem count_scan_byEntity {store : MemStore F} (consistent : store.Consistent)
    (entity : EntityId) {id : NodeId} {node : Node F} (stored : store.nodeAt id = some node) :
    (store.scan .byEntity (Utf8.ofString entity.asStr)).count id = node.listings entity := by
  rw [count_scan consistent, stored, Option.map_some, Option.getD_some, length_scanEntries,
    entryKeys_byEntity, List.countP_map]
  rfl

variable [F32 F]

/-- The matches of a query by an entity. -/
def entityMatches (store : MemStore F) (entity : EntityId) (q : Query)
    (options : QueryOptions F) : List (QueryResult F) :=
  ((store.scan .byEntity (Utf8.ofString entity.asStr)).filterMap store.activeAt).filterMap
    (matchOf q options)

theorem mem_entityMatches_iff {store : MemStore F} (consistent : store.Consistent)
    {entity : EntityId} {q : Query} (ground : .ent entity ∈ q.pattern.args)
    (options : QueryOptions F) (result : QueryResult F) :
    result ∈ store.entityMatches entity q options ↔ store.IsMatch q options result := by
  rw [entityMatches, mem_matches_iff consistent.keyed, and_iff_right_iff_imp]
  rintro ⟨stored, _, _, _, _, matched⟩
  rw [← List.count_pos_iff, count_scan_byEntity consistent entity stored]
  exact Node.listings_pos (mem_indexedEntities_of_matchPattern matched ground)

/-- A fact that is at odds with the premise. -/
def dissent : Node Rat := Node.new "n2" ⟨.name "located-in", [.ent ⟨"C"⟩, .ent ⟨"B"⟩], []⟩

/-- Public access where all have to agree. -/
def unanimously : QueryOptions Rat := { publicOptions with policy := .unanimous }

end FactumStore

end Factum
