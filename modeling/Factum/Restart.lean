/-
This file is about reopening a store over its backend.

The reverse dependencies and the validity index are not stored. They are rebuilt from
the nodes, in whatever order the backend lists them, and say about the nodes what the
ones kept up to date call by call say. A retraction sees a store only through its
nodes and the sets of their dependents, so the reopened store and the running one go
through every sequence of retractions with the same nodes.
-/

import Factum.Contract
import Factum.Temporal
import Factum.Withdrawal

namespace Factum

open Stateful Simulation

variable {F : Type}

namespace FactumStore

/-! ### Retractions see nodes and dependents -/

/-- A retraction reports a cut when it has no budget or its full cascade is larger. -/
theorem truncates_iff {store : MemStore F} (keyed : store.Keyed) (id : NodeId) (maxNodes : Nat) :
    store.Truncates (.retractWithLimit id maxNodes) ↔
      maxNodes = 0 ∨ store.Live id ∧ maxNodes < (store.fullCascade id).ncard := by
  by_cases positive : 0 < maxNodes
  · have notZero : maxNodes ≠ 0 := positive.ne'
    rw [or_iff_right notZero]
    by_cases live : store.Live id
    · obtain ⟨node, stored, notRetracted⟩ := live
      obtain ⟨depth, answered⟩ :=
        outcome_retract_of_retracts keyed ⟨positive, node, stored, notRetracted⟩
      have cut := store.cascadeTrace_truncated_iff stored positive
      rw [← cut, and_iff_right ⟨node, stored, notRetracted⟩]
      constructor
      · rintro ⟨result, answered', truncated⟩
        rw [answered] at answered'
        injection answered' with same
        injection same with same
        rwa [← same] at truncated
      · exact fun truncated => ⟨_, answered, truncated⟩
    · refine ⟨?_, fun both => absurd both.1 live⟩
      have mapped : store.outcome (.retractWithLimit id maxNodes) =
          (answer (retractWithLimit id maxNodes) store).map .retracted := answer_bind_pure _ _ _
      rintro ⟨result, answered, truncated⟩
      rw [mapped] at answered
      cases stored : store.nodeAt id with
      | none =>
        rw [answer_error (retractWithLimit_notFound stored positive)] at answered
        cases answered
      | some node =>
        have retracted : node.status = .retracted := by
          by_contra notRetracted
          exact live ⟨node, stored, notRetracted⟩
        rw [answer_ok (retractWithLimit_retracted stored retracted positive)] at answered
        injection answered with same
        injection same with same
        rw [← same] at truncated
        exact Bool.noConfusion truncated
  · obtain rfl : maxNodes = 0 := by omega
    exact ⟨fun _ => .inl rfl, fun _ => truncates_zero store id⟩

/-- Two stores with the same nodes and the same sets of dependents. -/
structure Alike (left right : MemStore F) : Prop where
  nodeAt : ∀ id, right.nodeAt id = left.nodeAt id
  dependents : ∀ dep id, id ∈ right.dependents dep ↔ id ∈ left.dependents dep

theorem Alike.fullCascade {left right : MemStore F} (alike : Alike left right) (root : NodeId) :
    right.fullCascade root = left.fullCascade root := by
  have sameEdge : ∀ x y, Marking.Edge right.dependents right.isSupported x y ↔
      Marking.Edge left.dependents left.isSupported x y := by
    intro x y
    unfold Marking.Edge FactumStore.isSupported
    rw [alike.dependents, alike.nodeAt]
  exact Set.Subset.antisymm (Marking.closure_mono _ _ (fun x y => (sameEdge x y).mp) root)
    (Marking.closure_mono _ _ (fun x y => (sameEdge x y).mpr) root)

theorem Alike.live {left right : MemStore F} (alike : Alike left right) (id : NodeId) :
    right.Live id ↔ left.Live id := by
  unfold Live
  rw [alike.nodeAt]

theorem Alike.withdrawn {left right : MemStore F} (alike : Alike left right) (root : NodeId) :
    right.withdrawn root = left.withdrawn root := by
  unfold FactumStore.withdrawn
  rw [alike.fullCascade, alike.live]

theorem Alike.keyed {left right : MemStore F} (alike : Alike left right) (keyed : left.Keyed) :
    right.Keyed := by
  intro id node stored
  rw [alike.nodeAt] at stored
  exact keyed id node stored

/-- A retraction that is not cut keeps two stores alike. -/
theorem Alike.after_retract {left right : MemStore F} (alike : Alike left right)
    (keyed : left.Keyed) {id : NodeId} {maxNodes : Nat}
    (complete : ¬ left.Truncates (.retractWithLimit id maxNodes)) :
    Alike (left.after (.retractWithLimit id maxNodes))
      (right.after (.retractWithLimit id maxNodes)) := by
  have completeRight : ¬ right.Truncates (.retractWithLimit id maxNodes) := by
    rw [truncates_iff (alike.keyed keyed), alike.live, alike.fullCascade, ← truncates_iff keyed]
    exact complete
  have leftWithdraws := withdraws_after keyed complete
  have rightWithdraws := withdraws_after (alike.keyed keyed) completeRight
  rw [alike.withdrawn] at rightWithdraws
  constructor
  · intro other
    by_cases gone : other ∈ left.withdrawn id
    · rw [leftWithdraws.inside other gone, rightWithdraws.inside other gone, alike.nodeAt]
    · rw [leftWithdraws.outside other gone, rightWithdraws.outside other gone, alike.nodeAt]
  · intro dep other
    show other ∈ Hash.listOf _ dep ↔ other ∈ Hash.listOf _ dep
    rw [leftWithdraws.depsRev, rightWithdraws.depsRev]
    exact alike.dependents dep other

/-- The calls of some retractions. -/
def retractions (roots : List (NodeId × Nat)) : List (Call F) :=
  roots.map fun root => .retractWithLimit root.1 root.2

/-- Retractions that are not cut keep two stores alike. -/
theorem Alike.run_retractions (roots : List (NodeId × Nat)) :
    ∀ {left right : MemStore F}, Alike left right → left.Keyed →
      (∀ result, .ok (.retracted result) ∈ left.outcomes (retractions roots) →
        result.truncated = false) →
      Alike (left.run (retractions roots)) (right.run (retractions roots)) := by
  induction roots with
  | nil => exact fun alike _ _ => alike
  | cons root rest inductionHypothesis =>
    intro left right alike keyed complete
    have notCut : ¬ left.Truncates (.retractWithLimit root.1 root.2) := by
      rintro ⟨result, answered, truncated⟩
      rw [complete result (List.mem_cons.mpr (.inl answered.symm))] at truncated
      exact Bool.noConfusion truncated
    refine inductionHypothesis (alike.after_retract keyed notCut)
      ((withdraws_after keyed notCut).keyed keyed) fun result member => ?_
    exact complete result (List.mem_cons_of_mem _ member)

/-! ### What is rebuilt -/

/-- A store over the same backend whose indices in memory were rebuilt from some nodes. -/
def rebuilt (store : MemStore F) (registry : MorphemeRegistry) (nodes : List (Node F)) :
    MemStore F :=
  ⟨store.backend, nodes.foldl updateDepsRev ∅, nodes.foldl updateByValidity ∅, registry, [], .new,
    none⟩

/-- A list of all stored nodes, each once. -/
structure Lists (store : MemStore F) (nodes : List (Node F)) : Prop where
  nodup : nodes.Nodup
  mem_iff : ∀ node, node ∈ nodes ↔ store.nodeAt node.id = some node

theorem Lists.distinct {store : MemStore F} {nodes : List (Node F)}
    (lists : store.Lists nodes) : (nodes.map Node.id).Nodup := by
  refine List.Nodup.map_on (fun node member other otherMember sameId => ?_) lists.nodup
  have stored := (lists.mem_iff node).mp member
  rw [sameId, (lists.mem_iff other).mp otherMember] at stored
  exact (Option.some.inj stored).symm

theorem Lists.alike {store : MemStore F} (consistent : store.Consistent)
    (registry : MorphemeRegistry) {nodes : List (Node F)} (lists : store.Lists nodes) :
    Alike store (store.rebuilt registry nodes) where
  nodeAt _ := rfl
  dependents dep id := by
    rw [consistent.dependents]
    show id ∈ Hash.listOf (nodes.foldl updateDepsRev ∅) dep ↔ _
    rw [mem_listOf_foldl_updateDepsRev]
    simp only [Hash.listOf_empty, List.not_mem_nil, false_or, lists.mem_iff]
    constructor
    · rintro ⟨node, stored, rfl, named⟩
      exact ⟨node, stored, named⟩
    · rintro ⟨node, stored, named⟩
      have sameId := consistent.keyed id node stored
      exact ⟨node, by rw [sameId]; exact stored, sameId, named⟩

theorem Lists.timed {store : MemStore F} (keyed : store.Keyed) (registry : MorphemeRegistry)
    {nodes : List (Node F)} (lists : store.Lists nodes) :
    (store.rebuilt registry nodes).Timed := by
  intro key id
  have found : nodes.find? (·.id == id) = store.nodeAt id := by
    ext node
    rw [find?_id_eq_some lists.distinct, lists.mem_iff]
    constructor
    · rintro ⟨stored, rfl⟩
      exact stored
    · intro stored
      have sameId := keyed id node stored
      exact ⟨by rw [sameId]; exact stored, sameId⟩
  show (Buckets.bucket (nodes.foldl updateByValidity ∅) key).count id =
    if (store.nodeAt id).map (·.validity.indexKey) = some key then 1 else 0
  rw [bucket_foldl_updateByValidity, Buckets.bucket_empty, List.nil_append,
    count_ids_with_key lists.distinct, found]

/-! ### Reopening over any backend -/

section Backends

variable {B : Type} [StorageBackend F B] {held : B → NodeId → Option (Node F)}

/-- Opening a backend that holds each node under its identifier rebuilds the indices in
memory from all its nodes. -/
theorem withBackend_eq (faithful : Faithful held) (reliable : Reliable F B) {backend : B}
    (keyed : ∀ id node, held backend id = some node → node.id = id)
    (registry : MorphemeRegistry) :
    ∃ (nodes : List (Node F)) (after : B), withBackend backend registry =
        ⟨after, nodes.foldl updateDepsRev ∅, nodes.foldl updateByValidity ∅, registry, [], .new,
          none⟩ ∧
      held after = held backend ∧ nodes.Nodup ∧
      ∀ node, node ∈ nodes ↔ held backend node.id = some node := by
  obtain ⟨nodes, after, ran⟩ := reliable.iterNodes backend
  obtain ⟨same, nodup, isNode⟩ := faithful.iterNodes_ok backend nodes after keyed ran
  refine ⟨nodes, after, ?_, same, nodup, isNode⟩
  have listed : callBackendOr none (some <$> StorageBackend.iterNodes)
      (⟨backend, ∅, ∅, registry, [], .new, none⟩ : FactumStore F B) =
      .ok (some nodes) ⟨after, ∅, ∅, registry, [], .new, none⟩ := by
    rw [callBackendOr, map_run, ran]
  have rebuilt : rebuildIndices (⟨backend, ∅, ∅, registry, [], .new, none⟩ : FactumStore F B) =
      .ok () ⟨after, nodes.foldl updateDepsRev ∅, nodes.foldl updateByValidity ∅, registry, [],
        .new, none⟩ := by
    rw [rebuildIndices, bind_ok listed]
    rfl
  rw [withBackend, final_ok rebuilt]

/-- An empty backend opens to a store that agrees with an empty in-memory store. -/
theorem inStep_withBackend (faithful : Faithful held) (reliable : Reliable F B) {empty : B}
    (nothing : ∀ id, held empty id = none) (registry : MorphemeRegistry) :
    InStep (Mirrors held)
      (MemStore.empty (.asStored _) (fun _ => .asStored _) registry : MemStore F)
      (withBackend empty registry) := by
  have keyed : ∀ id node, held empty id = some node → node.id = id := by
    intro id node found
    rw [nothing] at found
    cases found
  obtain ⟨nodes, after, opened, same, _, isNode⟩ :=
    withBackend_eq faithful reliable keyed registry
  have noNodes : nodes = [] := by
    rw [List.eq_nil_iff_forall_not_mem]
    intro node member
    rw [isNode, nothing] at member
    cases member
  rw [opened, MemStore.empty_eq, noNodes]
  refine ⟨?_, rfl, rfl, rfl, rfl, rfl, rfl⟩
  show held after = _
  rw [same]
  funext id
  rw [nothing]
  rfl

/-- A store whose calls keep running and the store reopened over its backend answer every
lookup by time with the same nodes, and retractions that are not cut leave them with the
same nodes. -/
theorem reopened_agrees (faithful : Faithful held) (reliable : Reliable F B) {empty : B}
    (nothing : ∀ id, held empty id = none) (registry registry' : MorphemeRegistry)
    (calls : List (Call F)) :
    let running : FactumStore F B := (withBackend empty registry).run calls
    let reopened : FactumStore F B := withBackend running.backend registry'
    (∀ t, ∃ found found', answer (lookupValidAt t) running = .ok found ∧
        answer (lookupValidAt t) reopened = .ok found' ∧
        ∀ node, node ∈ found ↔ node ∈ found') ∧
      ∀ roots : List (NodeId × Nat),
        (∀ result, .ok (.retracted result) ∈ running.outcomes (retractions roots) →
          result.truncated = false) →
        held (reopened.run (retractions roots)).backend =
          held (running.run (retractions roots)).backend := by
  intro running reopened
  let empty' : MemStore F := MemStore.empty (.asStored _) (fun _ => .asStored _) registry
  let mem := empty'.run calls
  have reachable : Reachable mem := (Reachable.empty _ _ registry).run calls
  have consistent := reachable.consistent
  have agree := callsAgree_mirrors faithful reliable
  have inStep : InStep (Mirrors held) mem running :=
    (agree_run agree calls (inStep_withBackend faithful reliable nothing registry)
      fun _ _ _ _ => trivial).2
  have heldNodes : held running.backend = mem.nodeAt := inStep.backend
  -- the reopened store agrees with the in-memory store rebuilt from the same list
  obtain ⟨nodes, after, opened, same, nodup, isNode⟩ :=
    withBackend_eq faithful reliable (by rw [heldNodes]; exact consistent.keyed) registry'
  have lists : mem.Lists nodes := ⟨nodup, fun node => by rw [isNode, heldNodes]⟩
  have inStepReopened : InStep (Mirrors held) (mem.rebuilt registry' nodes) reopened := by
    rw [show reopened = withBackend running.backend registry' from rfl, opened]
    exact ⟨same.trans heldNodes, rfl, rfl, rfl, rfl, rfl, rfl⟩
  have alike := lists.alike consistent registry'
  refine ⟨fun t => ?_, fun roots complete => ?_⟩
  · obtain ⟨found, ran, _, isFound⟩ := lookupValidAt_of_timed consistent.keyed reachable.timed t
    obtain ⟨found', ran', _, isFound'⟩ := lookupValidAt_of_timed (alike.keyed consistent.keyed)
      (lists.timed consistent.keyed registry') t
    refine ⟨found, found', ?_, ?_, fun node => ?_⟩
    · rw [← (agree_lookupValidAt agree t).answer inStep, answer_ok ran]
    · rw [← (agree_lookupValidAt agree t).answer inStepReopened, answer_ok ran']
    · rw [isFound, isFound', alike.nodeAt]
  · obtain ⟨sameOutcomes, after⟩ :=
      agree_run agree (retractions roots) inStep fun _ _ _ _ => trivial
    have afterReopened :=
      (agree_run agree (retractions roots) inStepReopened fun _ _ _ _ => trivial).2
    have alikeAfter := alike.run_retractions roots consistent.keyed (by rwa [sameOutcomes])
    have left : held (running.run (retractions roots)).backend =
        (mem.run (retractions roots)).nodeAt := after.backend
    have right : held (reopened.run (retractions roots)).backend =
        ((mem.rebuilt registry' nodes).run (retractions roots)).nodeAt := afterReopened.backend
    rw [left, right]
    exact funext alikeAfter.nodeAt

end Backends

/-- A store with a premise and its conclusion and the store reopened over the same nodes, as
they stand and after the premise is retracted. -/
theorem reopened_agrees_premise :
    let running : MemStore Rat :=
      (withBackend (.new (.asStored _) fun _ => .asStored _) .new).run
        [.insert premise, .insert conclusion]
    let reopened : MemStore Rat := withBackend running.backend .new
    (∃ found found', answer (lookupValidAt ⟨0, 0, by decide⟩) running = .ok found ∧
        answer (lookupValidAt ⟨0, 0, by decide⟩) reopened = .ok found' ∧
        ∀ node, node ∈ found ↔ node ∈ found') ∧
      (fun id => (reopened.run (retractions [(⟨"n1"⟩, 10)])).backend.nodes.get? id) =
        fun id => (running.run (retractions [(⟨"n1"⟩, 10)])).backend.nodes.get? id := by
  have nothing : ∀ id, (InMemoryBackend.new (.asStored _) fun _ => .asStored _ :
      InMemoryBackend Rat).nodes.get? id = none := fun _ => rfl
  obtain ⟨lookups, retracted⟩ := reopened_agrees InMemoryBackend.faithful
    InMemoryBackend.reliable nothing .new .new [.insert premise, .insert conclusion]
  refine ⟨lookups _, retracted [(⟨"n1"⟩, 10)] fun result member => ?_⟩
  have answered : result = ⟨[⟨"n1"⟩, ⟨"n2"⟩], false, 1⟩ := by
    have only : outcomes supportedStore (retractions [(⟨"n1"⟩, 10)]) =
        [.ok (.retracted ⟨[⟨"n1"⟩, ⟨"n2"⟩], false, 1⟩)] := by decide
    have member : .ok (.retracted result) ∈ outcomes supportedStore (retractions [(⟨"n1"⟩, 10)]) :=
      member
    rw [only, List.mem_singleton] at member
    injection member with same
    injection same
  rw [answered]

end FactumStore

end Factum
