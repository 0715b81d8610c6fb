/-
This file is about stores that differ in the orders in which their indices iterate.

A hash map iterates in an order of its own, so the same calls may leave two stores with the same
nodes and the same entries whose scans list them in different orders. The two run in step. Each
key of the head index has one match of a query at most, so there is a store for every order of
the matches.
-/

import Factum.Candidates
import Factum.Lockstep

namespace Factum

open Stateful Simulation

variable {F : Type}

/-! ### Backends in other orders -/

/-- Two backends with the same nodes and the same entries, where the indices of the second
iterate in given orders. -/
structure Reordered (orders : Cf → Hash.Order (List UInt8)) (left right : InMemoryBackend F) :
    Prop where
  nodes : right.nodes = left.nodes
  hasher : right.hasher = orders
  indices : ∀ cf, right.indices.lookup cf =
    (left.indices.lookup cf).map fun cfMap => cfMap.reorder (orders cf)

variable {orders : Cf → Hash.Order (List UInt8)}

theorem reordered_new (nodeOrder : Hash.Order NodeId)
    (hasher' : Cf → Hash.Order (List UInt8)) :
    Reordered (F := F) hasher (.new nodeOrder hasher') (.new nodeOrder hasher) where
  nodes := rfl
  hasher := rfl
  indices cf := by
    cases cf <;> rfl

/-- An operation of an insertion keeps backends the same but for their orders. -/
theorem Reordered.write {left right : InMemoryBackend F} (reordered : Reordered orders left right)
    {op : WriteOp F} (insertion : op.isInsertion = true) :
    Reordered orders (left.write op) (right.write op) := by
  cases op with
  | putNode node =>
    exact ⟨congrArg (·.insert node.id node) reordered.nodes, reordered.hasher, reordered.indices⟩
  | putIndex cf key nodeId =>
    have isIndex : cf ≠ .nodes := by simpa [WriteOp.isInsertion] using insertion
    have written : ∀ backend : InMemoryBackend F,
        backend.write (.putIndex cf key nodeId) = { backend with
          indices := backend.indices.insert cf <|
            ((backend.indices.lookup cf).getD (.empty (backend.hasher cf))).push key nodeId } := by
      intro backend
      simp only [InMemoryBackend.write, InMemoryBackend.applyOp, InMemoryBackend.putIndex,
        InMemoryBackend.getIndexMap_of_ne isIndex]
    rw [written, written]
    refine ⟨reordered.nodes, reordered.hasher, fun other => ?_⟩
    by_cases same : other = cf
    · subst same
      rw [AList.lookup_insert, AList.lookup_insert, reordered.indices, reordered.hasher]
      cases left.indices.lookup other <;> rfl
    · rw [AList.lookup_insert_ne same, AList.lookup_insert_ne same]
      exact reordered.indices other
  | deleteNode id => exact Bool.noConfusion insertion
  | deleteIndex cf key nodeId => exact Bool.noConfusion insertion

/-- A batch of insert operations keeps backends the same but for their orders. -/
theorem Reordered.batch {ops : List (WriteOp F)}
    (insertions : ∀ op ∈ ops, op.isInsertion = true) :
    ∀ {left right : InMemoryBackend F}, Reordered orders left right →
      Reordered orders (ops.foldl InMemoryBackend.write left)
        (ops.foldl InMemoryBackend.write right) := by
  induction ops with
  | nil => exact id
  | cons op rest inductionHypothesis =>
    intro left right reordered
    exact inductionHypothesis (fun other member => insertions other (List.mem_cons_of_mem _ member))
      (reordered.write (insertions op List.mem_cons_self))

/-- The calls of the store agree, whatever the orders. -/
theorem callsAgree_reordered : CallsAgree (F := F) (Reordered orders) fun _ => True where
  getNode id left right states := by
    refine ⟨?_, states⟩
    show left.nodes.get? id = right.nodes.get? id
    rw [states.nodes]
  returns _ _ _ _ _ _ _ := trivial
  putNode node _ left right states :=
    ⟨rfl, congrArg (·.insert node.id node) states.nodes, states.hasher, states.indices⟩
  batchWrite ops insertions _ left right states := by
    show ResultsAgree (Reordered orders) (InMemoryBackend.batchWrite ops left)
      (InMemoryBackend.batchWrite ops right)
    rw [InMemoryBackend.batchWrite_run insertions, InMemoryBackend.batchWrite_run insertions]
    exact ⟨rfl, states.batch insertions⟩
  retract _ _ := trivial

namespace FactumStore

/-! ### Stores in other orders -/

/-- For each reachable store there is one that differs from it in the orders of its indices
only. -/
theorem Reachable.reordered {store : MemStore F} (reachable : Reachable store)
    (orders : Cf → Hash.Order (List UInt8)) :
    ∃ other : MemStore F, Reachable other ∧ InStep (Reordered orders) store other := by
  induction reachable with
  | empty nodeOrder hasher registry =>
    refine ⟨_, .empty nodeOrder orders registry, ?_⟩
    rw [MemStore.empty_eq, MemStore.empty_eq]
    exact ⟨reordered_new nodeOrder hasher, rfl, rfl, rfl, rfl, rfl, rfl⟩
  | step _ call inductionHypothesis =>
    obtain ⟨other, reachable, inStep⟩ := inductionHypothesis
    exact ⟨other.after call, reachable.step call,
      (agree_perform callsAgree_reordered fun _ _ => trivial).final inStep⟩

theorem SameData.trans {store other third : MemStore F} (same : SameData store other)
    (same' : SameData other third) : SameData store third where
  nodeAt id := (same'.nodeAt id).trans (same.nodeAt id)
  idsAt cf key := (same'.idsAt cf key).trans (same.idsAt cf key)
  depsRev := same'.depsRev.trans same.depsRev
  registry := same'.registry.trans same.registry

variable [F32 F]

end FactumStore

end Factum
