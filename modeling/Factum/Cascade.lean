/-
This file shows that the retraction cascade is depth-first marking.

The cascade tests nodes for being active while it retracts them, through the
store. Seen from the store before the call, that test says two things: the node
was active and derived then, and the cascade has not retracted it. So a cascade is
a budgeted depth-first marking of a fixed graph, with the reverse dependencies as
its edges, and the store after it is the store before with the marked nodes
retracted. What that marking guarantees is the content of the library.
-/

import Factum.InMemory
import Factum.Library.Marking

namespace Factum

open Stateful

variable {F : Type}

namespace FactumStore

/-- Every node is stored under its own identifier. -/
def Keyed (store : MemStore F) : Prop := ∀ id node, store.nodeAt id = some node → node.id = id

/-- The active nodes of some identifiers are the nodes of those that are active. -/
theorem map_id_active {store : MemStore F} (keyed : store.Keyed) (ids : List NodeId) :
    (ids.filterMap store.activeAt).map Node.id = ids.filter fun id => (store.activeAt id).isSome :=
  map_filterMap_eq_filter
    (fun id node active => keyed id node ((activeAt_eq_some store id node).mp active).1) ids

theorem sublist_active {store : MemStore F} (keyed : store.Keyed) (ids : List NodeId) :
    ((ids.filterMap store.activeAt).map Node.id).Sublist ids := by
  rw [map_id_active keyed]
  exact List.filter_sublist

/-- Whether the cascade retracts this node when it meets it: stored, derived and active. -/
def isSupported (store : MemStore F) (id : NodeId) : Bool :=
  match store.nodeAt id with
  | some node => node.isActiveDerived
  | none => false

theorem isSupported_of_stored {store : MemStore F} {id : NodeId} {node : Node F}
    (stored : store.nodeAt id = some node) : store.isSupported id = node.isActiveDerived := by
  simp only [isSupported, stored]

theorem isSupported_of_absent {store : MemStore F} {id : NodeId}
    (absent : store.nodeAt id = none) : store.isSupported id = false := by
  simp only [isSupported, absent]

/-- A supported node is stored, derived and active. -/
theorem exists_of_isSupported {store : MemStore F} {id : NodeId}
    (supported : store.isSupported id = true) :
    ∃ node, store.nodeAt id = some node ∧ node.isActiveDerived = true := by
  cases stored : store.nodeAt id with
  | none => exact absurd supported (by simp [isSupported_of_absent stored])
  | some node => exact ⟨node, rfl, by rwa [isSupported_of_stored stored] at supported⟩

/-- The nodes that depend on this one. -/
def dependents (store : MemStore F) (id : NodeId) : List NodeId := Hash.listOf store.depsRev id

/-! ### Retracting marked nodes -/

/-- Retract one stored node. -/
def retractNode (store : MemStore F) (id : NodeId) : MemStore F :=
  match store.nodeAt id with
  | some node => log { store with backend := store.backend.putNode node.retract } (.retract id)
  | none => store

/-- Retract some stored nodes. -/
def retractAll (store : MemStore F) (ids : List NodeId) : MemStore F :=
  ids.foldl retractNode store

theorem nodeAt_retractNode {store : MemStore F} (keyed : store.Keyed) (id other : NodeId) :
    (store.retractNode id).nodeAt other =
      if other = id then (store.nodeAt id).map Node.retract else store.nodeAt other := by
  unfold retractNode
  cases stored : store.nodeAt id with
  | none =>
    split_ifs with same
    · rw [same]
      exact stored
    · rfl
  | some node =>
    show (store.backend.nodes.insert node.id node.retract).get? other = _
    rw [keyed id node stored, Hash.Map.get?_insert]
    rfl

theorem Keyed.retractNode {store : MemStore F} (keyed : store.Keyed) (id : NodeId) :
    (store.retractNode id).Keyed := by
  intro other node stored
  rw [nodeAt_retractNode keyed] at stored
  split_ifs at stored with same
  · obtain ⟨before, storedBefore, rfl⟩ := Option.map_eq_some_iff.mp stored
    exact same ▸ keyed id before storedBefore
  · exact keyed other node stored

/-- Retracting nodes leaves everything but the node map and the log alone. -/
theorem retractNode_same (store : MemStore F) (id : NodeId) :
    (store.retractNode id).depsRev = store.depsRev ∧
      (store.retractNode id).byValidity = store.byValidity ∧
      (store.retractNode id).registry = store.registry ∧
      (store.retractNode id).subscriptions = store.subscriptions ∧
      (store.retractNode id).verifiers = store.verifiers ∧
      (store.retractNode id).backend.indices = store.backend.indices := by
  unfold FactumStore.retractNode
  cases store.nodeAt id <;> exact ⟨rfl, rfl, rfl, rfl, rfl, rfl⟩

theorem retractAll_same (ids : List NodeId) : ∀ store : MemStore F,
    (store.retractAll ids).depsRev = store.depsRev ∧
      (store.retractAll ids).byValidity = store.byValidity ∧
      (store.retractAll ids).registry = store.registry ∧
      (store.retractAll ids).subscriptions = store.subscriptions ∧
      (store.retractAll ids).verifiers = store.verifiers ∧
      (store.retractAll ids).backend.indices = store.backend.indices := by
  induction ids with
  | nil => exact fun _ => ⟨rfl, rfl, rfl, rfl, rfl, rfl⟩
  | cons id rest inductionHypothesis =>
    intro store
    obtain ⟨deps, validity, registry, subscriptions, verifiers, indices⟩ :=
      inductionHypothesis (store.retractNode id)
    obtain ⟨deps', validity', registry', subscriptions', verifiers', indices'⟩ :=
      retractNode_same store id
    exact ⟨deps.trans deps', validity.trans validity', registry.trans registry',
      subscriptions.trans subscriptions', verifiers.trans verifiers', indices.trans indices'⟩

/-- The node map after retracting some nodes. -/
theorem nodeAt_retractAll (ids : List NodeId) : ∀ {store : MemStore F}, store.Keyed →
    ∀ other, (store.retractAll ids).nodeAt other =
      if other ∈ ids then (store.nodeAt other).map Node.retract else store.nodeAt other := by
  induction ids with
  | nil => exact fun _ _ => rfl
  | cons id rest inductionHypothesis =>
    intro store keyed other
    show ((store.retractNode id).retractAll rest).nodeAt other = _
    rw [inductionHypothesis (keyed.retractNode id), nodeAt_retractNode keyed]
    have twice : ∀ node : Node F, node.retract.retract = node.retract := fun _ => rfl
    by_cases same : other = id
    · subst same
      simp only [List.mem_cons_self, if_true]
      split_ifs
      · simp [Option.map_map, Function.comp_def, twice]
      · rfl
    · simp [same]

theorem Keyed.retractAll (ids : List NodeId) : ∀ {store : MemStore F}, store.Keyed →
    (store.retractAll ids).Keyed := by
  induction ids with
  | nil => exact fun keyed => keyed
  | cons id rest inductionHypothesis =>
    exact fun keyed => inductionHypothesis (keyed.retractNode id)

theorem isSupported_retractAll {store : MemStore F} (keyed : store.Keyed) (ids : List NodeId)
    (id : NodeId) :
    (store.retractAll ids).isSupported id = (store.isSupported id && id ∉ ids) := by
  unfold isSupported
  rw [nodeAt_retractAll ids keyed]
  by_cases member : id ∈ ids
  · simp only [member, if_true, not_true, decide_false, Bool.and_false]
    cases store.nodeAt id with
    | none => rfl
    | some node =>
      show (node.provenance.isDerived && NodeStatus.retracted == NodeStatus.active) = false
      exact Bool.and_false _
  · simp only [member, if_false, not_false_eq_true, decide_true, Bool.and_true]

/-! ### The cascade as marking -/

/-- The result of a cascade whose marking left this trace. -/
def resultOf (trace : Marking.Trace NodeId) (depth : Nat) : RetractResult :=
  ⟨trace.marked, trace.truncated, depth⟩

/-- The loop over dependents marks as the traversal does, if its recursive call does. -/
theorem retractDependents_run {store : MemStore F} (keyed : store.Keyed) {maxNodes : Nat}
    {recurse : NodeId → Nat → RetractResult → StoreM F (InMemoryBackend F) RetractResult}
    {visitOne : NodeId → Marking.Trace NodeId → Marking.Trace NodeId} (least : Nat)
    (grows : ∀ id trace, trace.marked <+: (visitOne id trace).marked)
    (refines : ∀ id trace depth level, store.isSupported id = true → id ∉ trace.marked →
      trace.marked.length < maxNodes → least ≤ trace.marked.length →
      ∃ depth', recurse id level (resultOf trace depth) (store.retractAll trace.marked) =
        .ok (resultOf (visitOne id trace) depth') (store.retractAll (visitOne id trace).marked))
    (level : Nat) : ∀ (ids : List NodeId) (trace : Marking.Trace NodeId) (depth : Nat),
    least ≤ trace.marked.length → ∃ depth',
      retractDependents maxNodes recurse level ids (resultOf trace depth)
          (store.retractAll trace.marked) =
        .ok (resultOf (Marking.visitEach store.isSupported maxNodes visitOne ids trace) depth')
          (store.retractAll
            (Marking.visitEach store.isSupported maxNodes visitOne ids trace).marked) := by
  intro ids
  induction ids with
  | nil => exact fun trace depth _ => ⟨depth, rfl⟩
  | cons id rest inductionHypothesis =>
    intro trace depth enough
    have test := isSupported_retractAll keyed trace.marked id
    unfold retractDependents
    rw [bind_ok (callBackend_getNode _ id), Marking.visitEach, ← test]
    cases stored : (store.retractAll trace.marked).nodeAt id with
    | none =>
      rw [isSupported_of_absent stored]
      exact inductionHypothesis trace depth enough
    | some node =>
      rw [isSupported_of_stored stored]
      by_cases wanted : node.isActiveDerived = true
      · have supported : store.isSupported id = true ∧ id ∉ trace.marked := by
          rw [isSupported_of_stored stored, wanted] at test
          simpa using test.symm
        simp only [wanted, if_true]
        by_cases full : maxNodes ≤ trace.marked.length
        · rw [if_pos full, if_pos (show maxNodes ≤ (resultOf trace depth).retracted.length
            from full)]
          exact ⟨depth, rfl⟩
        · rw [if_neg full, if_neg (show ¬ maxNodes ≤ (resultOf trace depth).retracted.length
            from full)]
          obtain ⟨between, ran⟩ := refines id trace depth (level + 1) supported.1 supported.2
            (by omega) enough
          rw [bind_ok ran]
          exact inductionHypothesis (visitOne id trace) between
            (enough.trans (grows id trace).length_le)
      · simp only [wanted]
        exact inductionHypothesis trace depth enough

/-- The cascade from a node that is stored, not retracted and not marked. -/
theorem retractRecursive_run {store : MemStore F} (keyed : store.Keyed) {maxNodes : Nat} :
    ∀ (fuel : Nat) (id : NodeId) (trace : Marking.Trace NodeId) (depth level : Nat)
      (node : Node F), store.nodeAt id = some node → node.status ≠ .retracted →
      id ∉ trace.marked → trace.marked.length < maxNodes →
      maxNodes ≤ fuel + trace.marked.length → ∃ depth',
      retractRecursive maxNodes fuel id level (resultOf trace depth)
          (store.retractAll trace.marked) =
        .ok (resultOf
            (Marking.visit store.dependents store.isSupported maxNodes fuel id trace) depth')
          (store.retractAll
            (Marking.visit store.dependents store.isSupported maxNodes fuel id trace).marked) := by
  intro fuel
  induction fuel with
  | zero =>
    intro id trace depth level node _ _ _ room enough
    omega
  | succ fuel inductionHypothesis =>
    intro id trace depth level node stored live fresh room enough
    have current : (store.retractAll trace.marked).nodeAt id = some node := by
      rw [nodeAt_retractAll _ keyed, if_neg fresh, stored]
    have marks : log { store.retractAll trace.marked with
          backend := (store.retractAll trace.marked).backend.putNode node.retract }
          (.retract id) = store.retractAll (trace.mark id).marked := by
      have last : store.retractAll (trace.mark id).marked =
          (store.retractAll trace.marked).retractNode id := List.foldl_append
      rw [last, retractNode, current]
    have refines : ∀ y (t : Marking.Trace NodeId) depth level, store.isSupported y = true →
        y ∉ t.marked → t.marked.length < maxNodes → trace.marked.length + 1 ≤ t.marked.length →
        ∃ depth', retractRecursive maxNodes fuel y level (resultOf t depth)
            (store.retractAll t.marked) =
          .ok (resultOf
              (Marking.visit store.dependents store.isSupported maxNodes fuel y t) depth')
            (store.retractAll
              (Marking.visit store.dependents store.isSupported maxNodes fuel y t).marked) := by
      intro y t depth level supported unmarked space least
      obtain ⟨other, storedY, activeDerived⟩ := exists_of_isSupported supported
      refine inductionHypothesis y t depth level other storedY ?_ unmarked space (by omega)
      intro retracted
      simp [Node.isActiveDerived, retracted] at activeDerived
    unfold retractRecursive
    rw [if_neg (show ¬ maxNodes ≤ (resultOf trace depth).retracted.length from by
      simpa [resultOf] using room)]
    simp only [bind_ok (callBackend_getNode _ id), current]
    rw [if_neg (by simpa using live), bind_ok (callBackend_putNode _ _), modify_bind_run,
      marks, get_bind_run]
    have sameDeps : Hash.listOf (store.retractAll (trace.mark id).marked).depsRev id =
        store.dependents id := by
      rw [(retractAll_same _ store).1]
      rfl
    rw [sameDeps, Marking.visit]
    exact retractDependents_run keyed (trace.marked.length + 1)
      (Marking.visit_grows fuel) refines level (store.dependents id) (trace.mark id) _ (by simp)

/-- The marking of a whole cascade. -/
def cascadeTrace (store : MemStore F) (id : NodeId) (maxNodes : Nat) : Marking.Trace NodeId :=
  Marking.visit store.dependents store.isSupported maxNodes (maxNodes + 1) id .empty

theorem cascadeTrace_run (store : MemStore F) (id : NodeId) {maxNodes : Nat}
    (positive : 0 < maxNodes) :
    Marking.Run store.dependents store.isSupported maxNodes (· = id) .empty
      (store.cascadeTrace id maxNodes) :=
  Marking.run_root store.dependents store.isSupported id positive (Nat.le_succ _)

/-- The root of a cascade is marked first. -/
theorem head_cascadeTrace (store : MemStore F) (id : NodeId) (maxNodes : Nat) :
    (store.cascadeTrace id maxNodes).marked.head? = some id :=
  Marking.head_visit store.dependents store.isSupported maxNodes id

theorem root_mem_cascadeTrace (store : MemStore F) (id : NodeId) (maxNodes : Nat) :
    id ∈ (store.cascadeTrace id maxNodes).marked :=
  List.mem_of_mem_head? (store.head_cascadeTrace id maxNodes)

/-- Retracting a stored node that is not retracted retracts what the marking marks. -/
theorem retractWithLimit_run {store : MemStore F} (keyed : store.Keyed) {id : NodeId}
    {node : Node F} {maxNodes : Nat} (stored : store.nodeAt id = some node)
    (live : node.status ≠ .retracted) (positive : 0 < maxNodes) : ∃ depth,
    retractWithLimit id maxNodes store =
      .ok (resultOf (store.cascadeTrace id maxNodes) depth)
        ((store.retractAll (store.cascadeTrace id maxNodes).marked).notifyRetract id
          (store.cascadeTrace id maxNodes).marked) := by
  obtain ⟨depth, ran⟩ := retractRecursive_run keyed (maxNodes + 1) id .empty 0 0 node stored live
    (by simp [Marking.Trace.empty]) (by simpa [Marking.Trace.empty] using positive)
    (by simp [Marking.Trace.empty])
  refine ⟨depth, ?_⟩
  have ran' : retractRecursive maxNodes (maxNodes + 1) id 0 ⟨[], false, 0⟩ store = _ := ran
  rw [retractWithLimit, bind_ok ran', modify_bind_run]
  rfl

/-- Retracting a node that is not stored is an error and changes nothing. -/
theorem retractWithLimit_notFound {store : MemStore F} {id : NodeId} {maxNodes : Nat}
    (absent : store.nodeAt id = none) (positive : 0 < maxNodes) :
    retractWithLimit id maxNodes store = .error (.fail (.notFound id.asStr)) store := by
  have ran : retractRecursive maxNodes (maxNodes + 1) id 0 ⟨[], false, 0⟩ store =
      .error (.fail (.notFound id.asStr)) store := by
    unfold retractRecursive
    rw [if_neg (show ¬ maxNodes ≤ (RetractResult.mk [] false 0).retracted.length from
      Nat.not_le.mpr positive)]
    simp only [bind_ok (callBackend_getNode _ id), absent]
    rfl
  rw [retractWithLimit, bind_error ran]

/-- Retracting a retracted node retracts nothing. -/
theorem retractWithLimit_retracted {store : MemStore F} {id : NodeId} {node : Node F}
    {maxNodes : Nat} (stored : store.nodeAt id = some node) (retracted : node.status = .retracted)
    (positive : 0 < maxNodes) :
    retractWithLimit id maxNodes store = .ok ⟨[], false, 0⟩ (store.notifyRetract id []) := by
  have ran : retractRecursive maxNodes (maxNodes + 1) id 0 ⟨[], false, 0⟩ store =
      .ok ⟨[], false, 0⟩ store := by
    unfold retractRecursive
    rw [if_neg (show ¬ maxNodes ≤ (RetractResult.mk [] false 0).retracted.length from
      Nat.not_le.mpr positive)]
    simp only [bind_ok (callBackend_getNode _ id), stored, retracted]
    rfl
  rw [retractWithLimit, bind_ok ran, modify_bind_run]
  rfl

/-- Without a budget nothing is retracted. -/
theorem retractWithLimit_zero (store : MemStore F) (id : NodeId) :
    retractWithLimit id 0 store = .ok ⟨[], true, 0⟩ (store.notifyRetract id []) := rfl

end FactumStore

end Factum
