/-
This file is about runs of a store: sequences of the calls that change it.

A call is one value and a run is a list of calls, so that a property of every run
is proved by one induction. For the in-memory backend each call either leaves the
data alone, takes some new nodes, or retracts some stored ones; the invariant that
ties the indices to the nodes is proved once for each of these three.
-/

import Factum.Cascade
import Factum.Library.Steps

namespace Factum

open Stateful

/-- The calls that change a store or what it is watched and verified by. -/
inductive Call (F : Type) where
  | insert (node : Node F)
  | insertBatch (nodes : List (Node F))
  | retractWithLimit (id : NodeId) (maxNodes : Nat)
  | subscribe (pattern : String)
  | setVerifiers (verifiers : Option (VerifierRegistry F))

/-- The nodes that a call offers to the store. -/
def Call.offered {F : Type} : Call F → List (Node F)
  | .insert node => [node]
  | .insertBatch nodes => nodes
  | _ => []

/-- What a call answers. -/
inductive Answer where
  | done
  | retracted (result : RetractResult)
deriving DecidableEq, Repr

namespace FactumStore

section Calls

variable {F B : Type} [StorageBackend F B]

/-- Perform a call. -/
def perform : Call F → StoreM F B Answer
  | .insert node => do
    insert node
    return .done
  | .insertBatch nodes => do
    insertBatch nodes
    return .done
  | .retractWithLimit id maxNodes => do
    return .retracted (← retractWithLimit id maxNodes)
  | .subscribe pattern => do
    modify fun store => { store with subscriptions := store.subscriptions.subscribe pattern }
    return .done
  | .setVerifiers verifiers => do
    modify fun store => { store with verifiers := verifiers }
    return .done

/-- The store after a call, which may have failed. -/
def after (store : FactumStore F B) (call : Call F) : FactumStore F B :=
  final (perform call) store

/-- What a call on a store answers. -/
def outcome (store : FactumStore F B) (call : Call F) : Except (Stop StoreError) Answer :=
  answer (perform call) store

/-- The store after a run. -/
def run (store : FactumStore F B) (calls : List (Call F)) : FactumStore F B :=
  calls.foldl after store

/-- The answers of a run. -/
def outcomes (store : FactumStore F B) : List (Call F) → List (Except (Stop StoreError) Answer)
  | [] => []
  | call :: rest => store.outcome call :: outcomes (store.after call) rest

end Calls

variable {F : Type}

/-- The in-memory stores that some run from an empty store reaches. -/
inductive Reachable : MemStore F → Prop
  | empty (nodeOrder : Hash.Order NodeId) (hasher : Cf → Hash.Order (List UInt8))
      (registry : MorphemeRegistry) : Reachable (MemStore.empty nodeOrder hasher registry)
  | step {store : MemStore F} (reachable : Reachable store) (call : Call F) :
      Reachable (store.after call)

theorem Reachable.run {store : MemStore F} (reachable : Reachable store)
    (calls : List (Call F)) : Reachable (store.run calls) := by
  induction calls generalizing store with
  | nil => exact reachable
  | cons call rest inductionHypothesis => exact inductionHypothesis (reachable.step call)

/-- A property of every call of a run, with the store before it. -/
def Along (property : MemStore F → Call F → Prop) : MemStore F → List (Call F) → Prop
  | _, [] => True
  | store, call :: rest => property store call ∧ Along property (store.after call) rest

theorem along_iff_steps {property : MemStore F → Call F → Prop} {calls : List (Call F)}
    {store : MemStore F} : Along property store calls ↔ Steps.Along after property store calls := by
  induction calls generalizing store with
  | nil => exact Iff.rfl
  | cons call rest inductionHypothesis => exact and_congr_right fun _ => inductionHypothesis

theorem along_of_mem {property : MemStore F → Call F → Prop} {calls : List (Call F)}
    (each : ∀ call ∈ calls, ∀ store, property store call) (store : MemStore F) :
    Along property store calls :=
  along_iff_steps.mpr (Steps.along_of_mem each store)

/-- A property that each call keeps exactly when the call is good holds throughout a run
exactly when every call of the run is good. -/
theorem run_iff_along {invariant property : MemStore F → Prop}
    {given good : MemStore F → Call F → Prop}
    (keeps : ∀ store call, invariant store → given store call → invariant (store.after call))
    (step : ∀ store call, invariant store → property store → given store call →
      (property (store.after call) ↔ good store call))
    (calls : List (Call F)) {store : MemStore F} (invariantHere : invariant store)
    (holds : property store) (givenAll : Along given store calls) :
    (∀ early, early <+: calls → property (store.run early)) ↔ Along good store calls := by
  rw [along_iff_steps] at givenAll
  rw [along_iff_steps]
  exact Steps.throughout_iff_along keeps step calls invariantHere holds givenAll

/-! ### What a call does -/

/-- Two stores with the same nodes, indices and registry. -/
structure SameData (store other : MemStore F) : Prop where
  nodeAt : ∀ id, other.nodeAt id = store.nodeAt id
  idsAt : ∀ cf key, other.idsAt cf key = store.idsAt cf key
  depsRev : other.depsRev = store.depsRev
  registry : other.registry = store.registry

theorem SameData.refl (store : MemStore F) : SameData store store :=
  ⟨fun _ => rfl, fun _ _ => rfl, rfl, rfl⟩

/-- Whether a store takes some new nodes: no verifier rejects one, no identifier is in use,
and none occurs twice. -/
structure Accepts (store : MemStore F) (nodes : List (Node F)) : Prop where
  verified : ∀ node ∈ nodes, store.rejection node = none
  fresh : ∀ node ∈ nodes, store.nodeAt node.id = none
  distinct : (nodes.map Node.id).Nodup

theorem after_insert_of_accepts {store : MemStore F} {node : Node F}
    (accepts : store.Accepts [node]) : store.after (.insert node) = store.admitted [node] := by
  have ran := insert_run store node
  rw [accepts.verified node List.mem_cons_self, accepts.fresh node List.mem_cons_self] at ran
  exact (final_bind_pure _ _ _).trans (final_ok ran)

theorem after_insert_of_not_accepts {store : MemStore F} {node : Node F}
    (refused : ¬ store.Accepts [node]) : store.after (.insert node) = store := by
  have ran := insert_run store node
  refine (final_bind_pure _ _ _).trans ?_
  cases rejected : store.rejection node with
  | some reason =>
    rw [rejected] at ran
    exact final_error ran
  | none =>
    rw [rejected] at ran
    cases stored : store.nodeAt node.id with
    | some other =>
      rw [stored] at ran
      exact final_error ran
    | none => exact absurd ⟨by simpa using rejected, by simpa using stored, by simp⟩ refused

theorem accepts_iff (store : MemStore F) (nodes : List (Node F)) :
    store.Accepts nodes ↔
      nodes.findSome? store.rejection = none ∧ store.firstDuplicate nodes [] = none := by
  rw [List.findSome?_eq_none_iff, firstDuplicate_eq_none]
  constructor
  · rintro ⟨verified, fresh, distinct⟩
    exact ⟨verified, fun node member => ⟨fresh node member, by simp⟩, distinct⟩
  · rintro ⟨verified, fresh, distinct⟩
    exact ⟨verified, fun node member => (fresh node member).1, distinct⟩

theorem after_insertBatch_of_accepts {store : MemStore F} {nodes : List (Node F)}
    (accepts : store.Accepts nodes) :
    store.after (.insertBatch nodes) = (store.admitted nodes).log .checkpoint := by
  have ran := insertBatch_run store nodes
  obtain ⟨verified, unique⟩ := (accepts_iff store nodes).mp accepts
  rw [verified, unique] at ran
  exact (final_bind_pure _ _ _).trans (final_ok ran)

theorem after_insertBatch_of_not_accepts {store : MemStore F} {nodes : List (Node F)}
    (refused : ¬ store.Accepts nodes) : store.after (.insertBatch nodes) = store := by
  have ran := insertBatch_run store nodes
  refine (final_bind_pure _ _ _).trans ?_
  cases rejected : nodes.findSome? store.rejection with
  | some reason =>
    rw [rejected] at ran
    exact final_error ran
  | none =>
    cases duplicate : store.firstDuplicate nodes [] with
    | some id =>
      rw [rejected, duplicate] at ran
      exact final_error ran
    | none => exact absurd ((accepts_iff store nodes).mpr ⟨rejected, duplicate⟩) refused

/-- Whether a retraction finds something to retract: a budget, and a stored node that is
not retracted. -/
structure Retracts (store : MemStore F) (id : NodeId) (maxNodes : Nat) : Prop where
  positive : 0 < maxNodes
  live : ∃ node, store.nodeAt id = some node ∧ node.status ≠ .retracted

theorem after_retract_of_retracts {store : MemStore F} (keyed : store.Keyed) {id : NodeId}
    {maxNodes : Nat} (retracts : store.Retracts id maxNodes) :
    store.after (.retractWithLimit id maxNodes) =
      (store.retractAll (store.cascadeTrace id maxNodes).marked).notifyRetract id
        (store.cascadeTrace id maxNodes).marked := by
  obtain ⟨node, stored, live⟩ := retracts.live
  obtain ⟨depth, ran⟩ := retractWithLimit_run keyed stored live retracts.positive
  exact (final_bind_pure _ _ _).trans (final_ok ran)

/-- A retraction that finds nothing to retract fails, or tells the subscribers of an empty
cascade. -/
theorem after_retract_of_idle {store : MemStore F} {id : NodeId} {maxNodes : Nat}
    (idle : ¬ store.Retracts id maxNodes) :
    store.after (.retractWithLimit id maxNodes) = store ∨
      store.after (.retractWithLimit id maxNodes) = store.notifyRetract id [] := by
  have finish : store.after (.retractWithLimit id maxNodes) =
      final (retractWithLimit id maxNodes) store := final_bind_pure _ _ _
  rw [finish]
  by_cases positive : 0 < maxNodes
  · cases stored : store.nodeAt id with
    | none => exact .inl (final_error (retractWithLimit_notFound stored positive))
    | some node =>
      by_cases retracted : node.status = .retracted
      · exact .inr (final_ok (retractWithLimit_retracted stored retracted positive))
      · exact absurd ⟨positive, node, stored, retracted⟩ idle
  · obtain rfl : maxNodes = 0 := by omega
    exact .inr (final_ok (retractWithLimit_zero store id))

theorem sameData_after_retract {store : MemStore F} {id : NodeId} {maxNodes : Nat}
    (idle : ¬ store.Retracts id maxNodes) :
    SameData store (store.after (.retractWithLimit id maxNodes)) := by
  rcases after_retract_of_idle idle with same | told
  · rw [same]
    exact SameData.refl store
  · rw [told]
    exact ⟨fun _ => rfl, fun _ _ => rfl, rfl, rfl⟩

/-- Every call leaves the data alone, takes the nodes it offers, or retracts a cascade. -/
theorem after_cases {store : MemStore F} (keyed : store.Keyed) (call : Call F) :
    SameData store (store.after call) ∨
    (store.Accepts (Call.offered call) ∧
      SameData (store.admitted (Call.offered call)) (store.after call)) ∨
    ∃ id maxNodes, call = .retractWithLimit id maxNodes ∧ store.Retracts id maxNodes ∧
      SameData (store.retractAll (store.cascadeTrace id maxNodes).marked) (store.after call) := by
  cases call with
  | insert node =>
    by_cases accepts : store.Accepts [node]
    · refine .inr (.inl ⟨accepts, ?_⟩)
      rw [after_insert_of_accepts accepts]
      exact SameData.refl _
    · rw [after_insert_of_not_accepts accepts]
      exact .inl (SameData.refl _)
  | insertBatch nodes =>
    by_cases accepts : store.Accepts nodes
    · refine .inr (.inl ⟨accepts, ?_⟩)
      rw [after_insertBatch_of_accepts accepts]
      exact ⟨fun _ => rfl, fun _ _ => rfl, rfl, rfl⟩
    · rw [after_insertBatch_of_not_accepts accepts]
      exact .inl (SameData.refl _)
  | retractWithLimit id maxNodes =>
    by_cases retracts : store.Retracts id maxNodes
    · refine .inr (.inr ⟨id, maxNodes, rfl, retracts, ?_⟩)
      rw [after_retract_of_retracts keyed retracts]
      exact ⟨fun _ => rfl, fun _ _ => rfl, rfl, rfl⟩
    · exact .inl (sameData_after_retract retracts)
  | subscribe pattern => exact .inl ⟨fun _ => rfl, fun _ _ => rfl, rfl, rfl⟩
  | setVerifiers verifiers => exact .inl ⟨fun _ => rfl, fun _ _ => rfl, rfl, rfl⟩

/-- A property that insertions, retractions, the end of a batch and changes of those who watch
and verify keep is kept by every call. -/
theorem after_keeps {property : MemStore F → Prop} {store : MemStore F} (keyed : store.Keyed)
    (holds : property store)
    (admits : ∀ nodes, store.Accepts nodes → property (store.admitted nodes))
    (retracts : ∀ ids, property (store.retractAll ids))
    (checkpoints : ∀ other, property other → property (other.log .checkpoint))
    (watches : ∀ other subscriptions verifiers, property other →
      property { other with subscriptions := subscriptions, verifiers := verifiers })
    (call : Call F) : property (store.after call) := by
  cases call with
  | insert node =>
    by_cases accepts : store.Accepts [node]
    · rw [after_insert_of_accepts accepts]
      exact admits [node] accepts
    · rw [after_insert_of_not_accepts accepts]
      exact holds
  | insertBatch nodes =>
    by_cases accepts : store.Accepts nodes
    · rw [after_insertBatch_of_accepts accepts]
      exact checkpoints _ (admits nodes accepts)
    · rw [after_insertBatch_of_not_accepts accepts]
      exact holds
  | retractWithLimit id maxNodes =>
    by_cases live : store.Retracts id maxNodes
    · rw [after_retract_of_retracts keyed live]
      exact watches _ _ _ (retracts _)
    · rcases after_retract_of_idle live with same | told
      · rw [same]
        exact holds
      · rw [told]
        exact watches _ _ _ holds
  | subscribe pattern => exact watches _ _ _ holds
  | setVerifiers verifiers => exact watches _ _ _ holds

/-! ### The invariant -/

/-- The indices say about the nodes exactly what the nodes say: each node is stored under
its identifier, the reverse dependencies are the dependencies turned around, and an index
lists an identifier as often as the stored node mentions the key. -/
structure Consistent (store : MemStore F) : Prop where
  keyed : store.Keyed
  dependents : ∀ dep id, id ∈ store.dependents dep ↔
    ∃ node, store.nodeAt id = some node ∧ dep ∈ node.deps
  index : ∀ cf key id, (store.idsAt cf key).count id =
    ((store.nodeAt id).map fun node => (indexEntries store.registry cf key node).length).getD 0

theorem Consistent.congr {store other : MemStore F} (consistent : store.Consistent)
    (same : SameData store other) : other.Consistent where
  keyed := by
    intro id node stored
    rw [same.nodeAt] at stored
    exact consistent.keyed id node stored
  dependents := by
    intro dep id
    rw [FactumStore.dependents, same.depsRev, same.nodeAt]
    exact consistent.dependents dep id
  index := by
    intro cf key id
    rw [same.idsAt, same.nodeAt, same.registry]
    exact consistent.index cf key id

/-- A store over an empty backend starts with empty indices. -/
theorem MemStore.empty_eq (nodeOrder : Hash.Order NodeId) (hasher : Cf → Hash.Order (List UInt8))
    (registry : MorphemeRegistry) :
    (MemStore.empty nodeOrder hasher registry : MemStore F) =
      ⟨.new nodeOrder hasher, ∅, ∅, registry, [], .new, none⟩ := by
  have noValues : (InMemoryBackend.new nodeOrder hasher : InMemoryBackend F).nodes.values =
      [] := by
    have noKeys : nodeOrder.arrange [] = [] := (nodeOrder.perm []).eq_nil
    show (nodeOrder.arrange []).filterMap _ = []
    rw [noKeys]
    rfl
  rw [MemStore.empty, withBackend, final_ok (rebuildIndices_run _)]
  simp only [noValues, List.foldl_nil]

/-- An empty store has no nodes, no reverse dependencies and empty indices. -/
theorem empty_data (nodeOrder : Hash.Order NodeId) (hasher : Cf → Hash.Order (List UInt8))
    (registry : MorphemeRegistry) :
    let store : MemStore F := MemStore.empty nodeOrder hasher registry
    (∀ id, store.nodeAt id = none) ∧ (∀ cf key, store.idsAt cf key = []) ∧
      store.depsRev = ∅ ∧ store.registry = registry := by
  rw [MemStore.empty_eq]
  refine ⟨fun _ => rfl, fun cf key => ?_, rfl, rfl⟩
  cases cf <;> rfl

theorem consistent_empty (nodeOrder : Hash.Order NodeId) (hasher : Cf → Hash.Order (List UInt8))
    (registry : MorphemeRegistry) :
    (MemStore.empty nodeOrder hasher registry : MemStore F).Consistent := by
  obtain ⟨noNodes, noIds, noDeps, _⟩ := empty_data (F := F) nodeOrder hasher registry
  refine ⟨?_, ?_, ?_⟩
  · intro id node stored
    rw [noNodes] at stored
    exact absurd stored (by simp)
  · intro dep id
    rw [FactumStore.dependents, noDeps, noNodes]
    simp
  · intro cf key id
    rw [noIds, noNodes]
    rfl

/-- Among nodes with pairwise different identifiers the one with some identifier is found. -/
theorem find?_id_eq_some {nodes : List (Node F)} (distinct : (nodes.map Node.id).Nodup)
    (id : NodeId) (node : Node F) :
    nodes.find? (·.id == id) = some node ↔ node ∈ nodes ∧ node.id = id := by
  constructor
  · intro found
    have sameId := List.find?_some found
    exact ⟨List.mem_of_find?_eq_some found, eq_of_beq sameId⟩
  · rintro ⟨member, rfl⟩
    cases found : nodes.find? (·.id == node.id) with
    | none => exact absurd (List.find?_eq_none.mp found node member) (by simp)
    | some other =>
      have sameId := List.find?_some found
      rw [List.inj_on_of_nodup_map distinct (List.mem_of_find?_eq_some found) member
        (eq_of_beq sameId)]

/-- A store that takes new nodes has them and the old ones. -/
theorem nodeAt_admitted_eq_some {store : MemStore F} {nodes : List (Node F)}
    (accepts : store.Accepts nodes) (id : NodeId) (node : Node F) :
    (store.admitted nodes).nodeAt id = some node ↔
      node ∈ nodes ∧ node.id = id ∨ store.nodeAt id = some node := by
  rw [nodeAt_admitted store accepts.distinct, Option.or_eq_some_iff,
    find?_id_eq_some accepts.distinct]
  refine or_congr_right ⟨fun old => old.2, fun stored => ⟨?_, stored⟩⟩
  rw [List.find?_eq_none]
  intro other member sameId
  have fresh := accepts.fresh other member
  rw [eq_of_beq sameId, stored] at fresh
  exact absurd fresh (by simp)

theorem Consistent.admitted {store : MemStore F} (consistent : store.Consistent)
    {nodes : List (Node F)} (accepts : store.Accepts nodes) :
    (store.admitted nodes).Consistent where
  keyed := by
    intro id node stored
    rcases (nodeAt_admitted_eq_some accepts id node).mp stored with
      ⟨_, sameId⟩ | old
    · exact sameId
    · exact consistent.keyed id node old
  dependents := by
    intro dep id
    have old := consistent.dependents dep id
    rw [FactumStore.dependents] at old
    rw [FactumStore.dependents, depsRev_admitted, mem_listOf_foldl_updateDepsRev, old]
    simp only [nodeAt_admitted_eq_some accepts]
    constructor
    · rintro (⟨node, stored, named⟩ | ⟨node, member, sameId, named⟩)
      · exact ⟨node, .inr stored, named⟩
      · exact ⟨node, .inl ⟨member, sameId⟩, named⟩
    · rintro ⟨node, ⟨member, sameId⟩ | stored, named⟩
      · exact .inr ⟨node, member, sameId, named⟩
      · exact .inl ⟨node, stored, named⟩
  index := by
    intro cf key id
    have own : ∀ node : Node F, (indexEntries store.registry cf key node).count id =
        if node.id = id then (indexEntries store.registry cf key node).length else 0 := by
      intro node
      split_ifs with sameId
      · rw [List.count_eq_length]
        intro entry member
        exact (sameId ▸ (mem_indexEntries member).1).symm
      · rw [List.count_eq_zero]
        intro member
        exact sameId (mem_indexEntries member).1.symm
    have absent : ∀ nodes : List (Node F), id ∉ nodes.map Node.id →
        (nodes.flatMap (indexEntries store.registry cf key)).count id = 0 := by
      intro nodes unused
      rw [List.count_eq_zero]
      intro member
      obtain ⟨node, isNode, isEntry⟩ := List.mem_flatMap.mp member
      exact unused (List.mem_map.mpr ⟨node, isNode, (mem_indexEntries isEntry).1.symm⟩)
    rw [idsAt_admitted, registry_admitted, List.count_append, consistent.index]
    cases found : (store.admitted nodes).nodeAt id with
    | none =>
      have unused : id ∉ nodes.map Node.id := by
        intro member
        obtain ⟨node, isNode, sameId⟩ := List.mem_map.mp member
        have stored := (nodeAt_admitted_eq_some accepts id node).mpr
          (.inl ⟨isNode, sameId⟩)
        rw [found] at stored
        exact absurd stored (by simp)
      have notStored : store.nodeAt id = none := by
        cases old : store.nodeAt id with
        | none => rfl
        | some node =>
          have stored := (nodeAt_admitted_eq_some accepts id node).mpr (.inr old)
          rw [found] at stored
          exact absurd stored (by simp)
      rw [absent nodes unused, notStored]
      rfl
    | some node =>
      rcases (nodeAt_admitted_eq_some accepts id node).mp found with
        ⟨member, rfl⟩ | old
      · obtain ⟨before, later, rfl⟩ := List.append_of_mem member
        have distinct := accepts.distinct
        rw [List.map_append, List.map_cons, List.nodup_append] at distinct
        have unusedBefore : node.id ∉ before.map Node.id := fun used =>
          distinct.2.2 node.id used node.id List.mem_cons_self rfl
        have unusedLater : node.id ∉ later.map Node.id := (List.nodup_cons.mp distinct.2.1).1
        rw [accepts.fresh node member, List.flatMap_append, List.flatMap_cons, List.count_append,
          List.count_append, absent before unusedBefore, absent later unusedLater, own,
          if_pos rfl]
        simp
      · have unused : id ∉ nodes.map Node.id := by
          intro used
          obtain ⟨other, isNode, sameId⟩ := List.mem_map.mp used
          have fresh := accepts.fresh other isNode
          rw [sameId, old] at fresh
          exact absurd fresh (by simp)
        rw [absent nodes unused, old]
        rfl

theorem Consistent.retractAll {store : MemStore F} (consistent : store.Consistent)
    (ids : List NodeId) : (store.retractAll ids).Consistent where
  keyed := consistent.keyed.retractAll ids
  dependents := by
    intro dep id
    rw [FactumStore.dependents, (retractAll_same ids store).1, nodeAt_retractAll ids
      consistent.keyed]
    have old := consistent.dependents dep id
    rw [FactumStore.dependents] at old
    rw [old]
    split_ifs
    · cases store.nodeAt id <;> simp [Node.retract]
    · rfl
  index := by
    intro cf key id
    have sameIds : (store.retractAll ids).idsAt cf key = store.idsAt cf key := by
      unfold FactumStore.idsAt InMemoryBackend.idsAt
      rw [(retractAll_same ids store).2.2.2.2.2]
    rw [sameIds, consistent.index, nodeAt_retractAll ids consistent.keyed,
      (retractAll_same ids store).2.2.1]
    split_ifs
    · cases store.nodeAt id <;> simp [indexEntries_retract]
    · rfl

theorem Consistent.after {store : MemStore F} (consistent : store.Consistent) (call : Call F) :
    (store.after call).Consistent := by
  rcases after_cases consistent.keyed call with
    same | ⟨accepts, same⟩ | ⟨id, maxNodes, _, _, same⟩
  · exact consistent.congr same
  · exact (consistent.admitted accepts).congr same
  · exact (consistent.retractAll _).congr same

/-- Every reachable store is consistent. -/
theorem Reachable.consistent {store : MemStore F} (reachable : Reachable store) :
    store.Consistent := by
  induction reachable with
  | empty nodeOrder hasher registry => exact consistent_empty nodeOrder hasher registry
  | step _ call inductionHypothesis => exact inductionHypothesis.after call

/-! ### What holds of the stored nodes -/

/-- Every stored node has a property. -/
def EveryStored (good : Node F → Prop) (store : MemStore F) : Prop :=
  ∀ id node, store.nodeAt id = some node → good node

/-- A call that stores only nodes with a property. -/
def StoresEvery (good : Node F → Prop) (store : MemStore F) (call : Call F) : Prop :=
  store.Accepts call.offered → ∀ node ∈ call.offered, good node

/-- Every stored active node has a property. -/
def EveryActive (good : Node F → Prop) (store : MemStore F) : Prop :=
  ∀ id node, store.nodeAt id = some node → node.status = .active → good node

/-- A call that stores only active nodes with a property. -/
def StoresOnly (good : Node F → Prop) (store : MemStore F) (call : Call F) : Prop :=
  store.Accepts call.offered → ∀ node ∈ call.offered, node.status = .active → good node

variable {good : Node F → Prop}

theorem everyStored_empty (nodeOrder : Hash.Order NodeId)
    (hasher : Cf → Hash.Order (List UInt8)) (registry : MorphemeRegistry) :
    (MemStore.empty nodeOrder hasher registry : MemStore F).EveryStored good := by
  intro id node stored
  rw [(empty_data nodeOrder hasher registry).1] at stored
  exact absurd stored (by simp)

theorem EveryStored.congr_iff {store other : MemStore F} (same : SameData store other) :
    other.EveryStored good ↔ store.EveryStored good := by
  unfold EveryStored
  simp only [same.nodeAt]

/-- Taking new nodes keeps a property of the stored nodes exactly when the new ones have it. -/
theorem everyStored_admitted_iff {store : MemStore F} (holds : store.EveryStored good)
    {nodes : List (Node F)} (accepts : store.Accepts nodes) :
    (store.admitted nodes).EveryStored good ↔ ∀ node ∈ nodes, good node := by
  have stored := nodeAt_admitted_eq_some accepts
  constructor
  · exact fun after node member => after node.id node ((stored _ _).mpr (.inl ⟨member, rfl⟩))
  · intro offered id node isStored
    rcases (stored id node).mp isStored with ⟨member, _⟩ | old
    · exact offered node member
    · exact holds id node old

/-- Retracting nodes keeps a property that retracted nodes keep. -/
theorem EveryStored.retractAll {store : MemStore F} (holds : store.EveryStored good)
    (retracts : ∀ node : Node F, good node → good node.retract) (keyed : store.Keyed)
    (ids : List NodeId) : (store.retractAll ids).EveryStored good := by
  intro id node stored
  rw [nodeAt_retractAll ids keyed] at stored
  split_ifs at stored
  · obtain ⟨before, wasStored, rfl⟩ := Option.map_eq_some_iff.mp stored
    exact retracts before (holds id before wasStored)
  · exact holds id node stored

/-- One call keeps a property of the stored nodes that retracted nodes keep exactly when it
stores only such nodes. -/
theorem everyStored_after_iff (retracts : ∀ node : Node F, good node → good node.retract)
    {store : MemStore F} (keyed : store.Keyed) (holds : store.EveryStored good)
    (call : Call F) : (store.after call).EveryStored good ↔ store.StoresEvery good call := by
  cases call with
  | insert node =>
    by_cases accepts : store.Accepts [node]
    · rw [after_insert_of_accepts accepts, everyStored_admitted_iff holds accepts]
      exact ⟨fun offered _ => offered, fun step => step accepts⟩
    · rw [after_insert_of_not_accepts accepts]
      exact ⟨fun _ given => absurd given accepts, fun _ => holds⟩
  | insertBatch nodes =>
    by_cases accepts : store.Accepts nodes
    · rw [after_insertBatch_of_accepts accepts]
      refine (everyStored_admitted_iff holds accepts).trans ?_
      exact ⟨fun offered _ => offered, fun step => step accepts⟩
    · rw [after_insertBatch_of_not_accepts accepts]
      exact ⟨fun _ given => absurd given accepts, fun _ => holds⟩
  | retractWithLimit id maxNodes =>
    have noOffer : store.StoresEvery good (.retractWithLimit id maxNodes) :=
      fun _ node member => absurd member List.not_mem_nil
    refine ⟨fun _ => noOffer, fun _ => ?_⟩
    by_cases live : store.Retracts id maxNodes
    · rw [after_retract_of_retracts keyed live]
      exact holds.retractAll retracts keyed _
    · exact (EveryStored.congr_iff (sameData_after_retract live)).mpr holds
  | subscribe pattern =>
    exact ⟨fun _ _ node member => absurd member List.not_mem_nil, fun _ => holds⟩
  | setVerifiers verifiers =>
    exact ⟨fun _ _ node member => absurd member List.not_mem_nil, fun _ => holds⟩

theorem everyActive_empty (nodeOrder : Hash.Order NodeId)
    (hasher : Cf → Hash.Order (List UInt8)) (registry : MorphemeRegistry) :
    (MemStore.empty nodeOrder hasher registry : MemStore F).EveryActive good :=
  everyStored_empty nodeOrder hasher registry

/-- One call keeps a property of the active nodes exactly when it stores only such nodes. A
retracted node is not active. -/
theorem everyActive_after_iff {store : MemStore F} (consistent : store.Consistent)
    (holds : store.EveryActive good) (call : Call F) :
    (store.after call).EveryActive good ↔ store.StoresOnly good call :=
  everyStored_after_iff (fun _ _ impossible => by cases impossible) consistent.keyed holds call

/-- A property holds of the active nodes throughout a run exactly when every call stores
only active nodes with the property. -/
theorem run_everyActive_iff (good : Node F → Prop) (nodeOrder : Hash.Order NodeId)
    (hasher : Cf → Hash.Order (List UInt8)) (registry : MorphemeRegistry)
    (calls : List (Call F)) :
    (∀ early, early <+: calls →
        ((MemStore.empty nodeOrder hasher registry).run early).EveryActive good) ↔
      Along (StoresOnly good) (MemStore.empty nodeOrder hasher registry) calls := by
  have keeps : ∀ (store : MemStore F) (call : Call F), store.Consistent → True →
      (store.after call).Consistent := fun store call consistent _ => consistent.after call
  have step : ∀ (store : MemStore F) (call : Call F), store.Consistent →
      store.EveryActive good → True →
      ((store.after call).EveryActive good ↔ store.StoresOnly good call) :=
    fun store call consistent holds _ => everyActive_after_iff consistent holds call
  exact run_iff_along keeps step calls (consistent_empty nodeOrder hasher registry)
    (everyActive_empty nodeOrder hasher registry) (along_of_mem (fun _ _ _ => trivial) _)

end FactumStore

end Factum
