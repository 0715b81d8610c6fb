/-
This file says what the store relies on in a backend.

A backend is seen through the nodes that it holds. A call that succeeds does what
its name says to them, and a call that fails leaves them as they were. Whether calls
may fail is a second matter: the in-memory backend never does.
-/

import Factum.Lockstep

namespace Factum

open Stateful Simulation

variable {F B : Type}

/-- The nodes after some operations of a batch. -/
def writtenNodes (nodes : NodeId → Option (Node F)) (ops : List (WriteOp F)) :
    NodeId → Option (Node F) :=
  (ops.filterMap WriteOp.node?).foldl
    (fun nodes node => Function.update nodes node.id (some node)) nodes

/-- What the calls of a backend do to the nodes that it holds. -/
structure Faithful [StorageBackend F B] (held : B → NodeId → Option (Node F)) : Prop where
  getNode_ok : ∀ id b found after, StorageBackend.getNode id b = .ok found after →
    found = held b id ∧ held after = held b
  getNode_error : ∀ id (b : B) error after,
    (StorageBackend.getNode id : BackendM B (Option (Node F))) b = .error error after →
      held after = held b
  putNode_ok : ∀ node b after, StorageBackend.putNode node b = .ok () after →
    held after = Function.update (held b) node.id (some node)
  putNode_error : ∀ (node : Node F) (b : B) error after,
    StorageBackend.putNode node b = .error error after → held after = held b
  batchWrite_ok : ∀ (ops : List (WriteOp F)) (b : B) after,
    (∀ op ∈ ops, op.isInsertion = true) → StorageBackend.batchWrite ops b = .ok () after →
      held after = writtenNodes (held b) ops
  batchWrite_error : ∀ (ops : List (WriteOp F)) (b : B) error after,
    (∀ op ∈ ops, op.isInsertion = true) → StorageBackend.batchWrite ops b = .error error after →
      held after = held b
  iterNodes_ok : ∀ b (nodes : List (Node F)) after,
    (∀ id node, held b id = some node → node.id = id) →
    StorageBackend.iterNodes b = .ok nodes after →
      held after = held b ∧ nodes.Nodup ∧ ∀ node, node ∈ nodes ↔ held b node.id = some node

/-- A backend whose calls succeed. -/
structure Reliable (F B : Type) [StorageBackend F B] : Prop where
  getNode : ∀ id (b : B), ∃ found after,
    (StorageBackend.getNode id : BackendM B (Option (Node F))) b = .ok found after
  putNode : ∀ (node : Node F) (b : B), ∃ after, StorageBackend.putNode node b = .ok () after
  batchWrite : ∀ (ops : List (WriteOp F)) (b : B), (∀ op ∈ ops, op.isInsertion = true) →
    ∃ after, StorageBackend.batchWrite ops b = .ok () after
  iterNodes : ∀ b : B, ∃ nodes after,
    (StorageBackend.iterNodes : BackendM B (List (Node F))) b = .ok nodes after

/-! ### The in-memory backend -/

theorem writtenNodes_cons (nodes : NodeId → Option (Node F)) (op : WriteOp F)
    (rest : List (WriteOp F)) :
    writtenNodes nodes (op :: rest) = writtenNodes (writtenNodes nodes [op]) rest := by
  cases written : op.node? with
  | none =>
    simp only [writtenNodes, List.filterMap_cons, written, List.filterMap_nil, List.foldl_nil]
  | some node =>
    simp only [writtenNodes, List.filterMap_cons, written, List.filterMap_nil, List.foldl_nil,
      List.foldl_cons]

namespace InMemoryBackend

theorem held_putNode (backend : InMemoryBackend F) (node : Node F) :
    (backend.putNode node).nodes.get? = Function.update backend.nodes.get? node.id (some node) := by
  funext id
  rw [Function.update_apply]
  exact Hash.Map.get?_insert _ _ _ _

theorem held_write (backend : InMemoryBackend F) {op : WriteOp F}
    (insertion : op.isInsertion = true) :
    (backend.write op).nodes.get? = writtenNodes backend.nodes.get? [op] := by
  rw [nodes_write backend insertion]
  cases op with
  | putNode node => exact held_putNode backend node
  | putIndex cf key nodeId => rfl
  | deleteNode id => exact Bool.noConfusion insertion
  | deleteIndex cf key nodeId => exact Bool.noConfusion insertion

theorem held_foldl_write {ops : List (WriteOp F)}
    (insertions : ∀ op ∈ ops, op.isInsertion = true) : ∀ backend : InMemoryBackend F,
    (ops.foldl write backend).nodes.get? = writtenNodes backend.nodes.get? ops := by
  induction ops with
  | nil => exact fun _ => rfl
  | cons op rest inductionHypothesis =>
    intro backend
    rw [List.foldl_cons, inductionHypothesis fun op member =>
        insertions op (List.mem_cons_of_mem _ member),
      held_write backend (insertions op List.mem_cons_self), ← writtenNodes_cons]

theorem faithful : Faithful fun (backend : InMemoryBackend F) id => backend.nodes.get? id where
  getNode_ok := by
    intro id b found after ran
    injection ran with isFound isAfter
    exact ⟨isFound.symm, by rw [← isAfter]⟩
  getNode_error := by
    intro id b error after ran
    cases ran
  putNode_ok := by
    intro node b after ran
    injection ran with _ isAfter
    rw [← isAfter]
    exact held_putNode b node
  putNode_error := by
    intro node b error after ran
    cases ran
  batchWrite_ok := by
    intro ops b after insertions ran
    have ran : batchWrite ops b = .ok () after := ran
    rw [batchWrite_run insertions] at ran
    injection ran with _ isAfter
    rw [← isAfter]
    exact held_foldl_write insertions b
  batchWrite_error := by
    intro ops b error after insertions ran
    have ran : batchWrite ops b = .error error after := ran
    rw [batchWrite_run insertions] at ran
    cases ran
  iterNodes_ok := by
    intro b nodes after keyed ran
    injection ran with isNodes isAfter
    subst isNodes isAfter
    refine ⟨rfl, b.nodes.nodup_values fun id id' node found found' => ?_, fun node => ?_⟩
    · exact (keyed id node found).symm.trans (keyed id' node found')
    · rw [Hash.Map.mem_values_iff]
      constructor
      · rintro ⟨id, found⟩
        rw [keyed id node found]
        exact found
      · exact fun found => ⟨node.id, found⟩

theorem reliable : Reliable F (InMemoryBackend F) where
  getNode _ _ := ⟨_, _, rfl⟩
  putNode _ _ := ⟨_, rfl⟩
  batchWrite _ b insertions := ⟨_, batchWrite_run insertions b⟩
  iterNodes _ := ⟨_, _, rfl⟩

end InMemoryBackend

/-! ### Any reliable backend runs in step with the in-memory one -/

/-- An in-memory backend that holds the same nodes. -/
def Mirrors (held : B → NodeId → Option (Node F)) (mem : InMemoryBackend F) (b : B) : Prop :=
  held b = mem.nodes.get?

theorem callsAgree_mirrors [StorageBackend F B] {held : B → NodeId → Option (Node F)}
    (faithful : Faithful held) (reliable : Reliable F B) :
    CallsAgree (Mirrors held) (fun _ => True) where
  getNode id mem b mirrors := by
    obtain ⟨found, after, ran⟩ := reliable.getNode id b
    obtain ⟨isFound, same⟩ := faithful.getNode_ok id b found after ran
    rw [ran]
    refine ⟨?_, same.trans mirrors⟩
    rw [isFound, mirrors]
  returns _ _ _ _ _ _ _ := trivial
  putNode node _ mem b mirrors := by
    obtain ⟨after, ran⟩ := reliable.putNode node b
    rw [ran]
    refine ⟨rfl, ?_⟩
    rw [Mirrors, faithful.putNode_ok node b after ran, mirrors]
    exact (InMemoryBackend.held_putNode mem node).symm
  batchWrite ops insertions _ mem b mirrors := by
    obtain ⟨after, ran⟩ := reliable.batchWrite ops b insertions
    have ranMem : StorageBackend.batchWrite ops mem =
        .ok () (ops.foldl InMemoryBackend.write mem) :=
      InMemoryBackend.batchWrite_run insertions mem
    rw [ran, ranMem]
    refine ⟨rfl, ?_⟩
    rw [Mirrors, faithful.batchWrite_ok ops b after insertions ran, mirrors]
    exact (InMemoryBackend.held_foldl_write insertions mem).symm
  retract _ _ := trivial

end Factum
