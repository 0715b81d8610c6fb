/-
This file compares the two storage backends under the same calls.

The store is one program over either backend, so the comparison is a simulation:
the backends are related when they hold the same nodes and their indices have the
same keys, each call keeps that relation, and so does every method of the store.
Runs over the two backends therefore answer the same and hold the same nodes.

The lookups are where they differ. The in-memory index lists an identifier once for
each mention of a key, the sorted map holds a key once, so a lookup by entity gives
a node that mentions the entity twice two times from the one and once from the
other.
-/

import Factum.Index
import Factum.Rocks
import Factum.Retraction
import Factum.Library.PrefixScan
import Factum.Lockstep

namespace Factum

open Stateful Simulation

variable {F : Type}

/-- Whether a codec writes a node and reads it back as it was. -/
def NodeCodec.Keeps (codec : NodeCodec F) (node : Node F) : Prop :=
  ∃ bytes, codec.serializeNode node = .ok bytes ∧ codec.deserializeNode bytes = .ok node

/-- Whether a codec keeps a node now and once it is retracted. -/
def NodeCodec.Lossless (codec : NodeCodec F) (node : Node F) : Prop :=
  codec.Keeps node ∧ codec.Keeps node.retract

theorem NodeCodec.Lossless.retract {codec : NodeCodec F} {node : Node F}
    (lossless : codec.Lossless node) : codec.Lossless node.retract := ⟨lossless.2, lossless.2⟩

/-! ### The relation between the backends -/

/-- The backends hold the same nodes, all of which the codec keeps, and their indices have
the same keys. -/
structure BackendsAgree (codec : NodeCodec F) (mem : InMemoryBackend F)
    (rocks : RocksDBBackend F) : Prop where
  sameCodec : rocks.codec = codec
  lossless : ∀ id node, mem.nodes.get? id = some node → codec.Lossless node
  nodes : ∀ id, rocks.getNode id = mem.nodes.get? id
  keys : ∀ cf key, cf ≠ .nodes → (key ∈ rocks.columns cf ↔ mem.idsAt cf key ≠ [])

variable {codec : NodeCodec F}

theorem backendsAgree_new (nodeOrder : Hash.Order NodeId)
    (hasher : Cf → Hash.Order (List UInt8)) :
    BackendsAgree codec (.new nodeOrder hasher) (.new codec) where
  sameCodec := rfl
  lossless := by
    intro id node stored
    exact absurd stored (by simp [InMemoryBackend.new])
  nodes := by
    intro id
    simp [RocksDBBackend.getNode, RocksDBBackend.new, InMemoryBackend.new]
  keys := by
    intro cf key _
    have empty : (InMemoryBackend.new nodeOrder hasher : InMemoryBackend F).idsAt cf key = [] := by
      cases cf <;> rfl
    simp [RocksDBBackend.new, empty]

/-- Writing a node keeps the relation, when the codec keeps what is written. -/
theorem BackendsAgree.putNode {mem : InMemoryBackend F} {rocks : RocksDBBackend F}
    (agree : BackendsAgree codec mem rocks) {node : Node F} (lossless : codec.Lossless node) :
    ∃ after, rocks.putNode node = .ok after ∧ BackendsAgree codec (mem.putNode node) after := by
  obtain ⟨bytes, written, read⟩ := lossless.1
  have stored : ∀ id, (mem.putNode node).nodes.get? id =
      if node.id = id then some node else mem.nodes.get? id := by
    intro id
    show (mem.nodes.insert node.id node).get? id = _
    by_cases same : node.id = id
    · rw [if_pos same, ← same]
      exact Hash.Map.get?_insert_self _ _ _
    · rw [if_neg same]
      exact Hash.Map.get?_insert_of_ne _ _ (Ne.symm same)
  refine ⟨rocks.putCf .nodes (Utf8.ofString node.id.asStr) bytes, ?_, agree.sameCodec, ?_, ?_, ?_⟩
  · rw [RocksDBBackend.putNode, agree.sameCodec, written]
  · intro id other found
    rw [stored] at found
    split_ifs at found
    · obtain rfl := Option.some.inj found
      exact lossless
    · exact agree.lossless id other found
  · intro id
    rw [RocksDBBackend.getNode_putCf_nodes, stored, agree.sameCodec]
    by_cases same : node.id = id
    · rw [if_pos same, if_pos (congrArg (fun id => Utf8.ofString id.asStr) same), read]
      rfl
    · have different : Utf8.ofString node.id.asStr ≠ Utf8.ofString id.asStr := by
        intro bytesSame
        exact same (congrArg NodeId.mk (Utf8.ofString_injective bytesSame))
      rw [if_neg same, if_neg different, agree.nodes id]
  · intro cf key isIndex
    rw [RocksDBBackend.columns_putCf, if_neg isIndex]
    exact agree.keys cf key isIndex

/-- An index entry keeps the relation. -/
theorem BackendsAgree.putIndex {mem : InMemoryBackend F} {rocks : RocksDBBackend F}
    (agree : BackendsAgree codec mem rocks) {cf : Cf} (isIndex : cf ≠ .nodes)
    (key : List UInt8) (nodeId : NodeId) :
    BackendsAgree codec (mem.write (.putIndex cf key nodeId)) (rocks.putCf cf key []) := by
  have insertion : (WriteOp.putIndex cf key nodeId : WriteOp F).isInsertion = true := by
    simpa [WriteOp.isInsertion] using isIndex
  have sameNodes : (mem.write (.putIndex cf key nodeId)).nodes = mem.nodes :=
    InMemoryBackend.nodes_write mem insertion
  refine ⟨agree.sameCodec, ?_, ?_, ?_⟩
  · rw [sameNodes]
    exact agree.lossless
  · intro id
    rw [sameNodes, RocksDBBackend.getNode_putCf_of_ne isIndex]
    exact agree.nodes id
  · intro cf' key' isIndex'
    rw [InMemoryBackend.idsAt_write mem insertion, RocksDBBackend.columns_putCf]
    have old := agree.keys cf' key' isIndex'
    by_cases sameCf : cf' = cf
    · subst sameCf
      rw [if_pos rfl, Std.TreeMap.mem_insert, old]
      by_cases sameKey : key = key'
      · simp [WriteOp.entryAt?, sameKey]
      · simp [WriteOp.entryAt?, sameKey]
    · rw [if_neg sameCf, old]
      simp [WriteOp.entryAt?, Ne.symm sameCf]

/-- A batch of insert operations keeps the relation. -/
theorem BackendsAgree.batchWrite {ops : List (WriteOp F)}
    (insertions : ∀ op ∈ ops, op.isInsertion = true)
    (lossless : ∀ node, .putNode node ∈ ops → codec.Lossless node) :
    ∀ {mem : InMemoryBackend F} {rocks : RocksDBBackend F}, BackendsAgree codec mem rocks →
      ∃ after, ops.foldlM RocksDBBackend.applyOp rocks = .ok after ∧
        BackendsAgree codec (ops.foldl InMemoryBackend.write mem) after := by
  induction ops with
  | nil => exact fun agree => ⟨_, rfl, agree⟩
  | cons op rest inductionHypothesis =>
    intro mem rocks agree
    have first : ∃ after, rocks.applyOp op = .ok after ∧
        BackendsAgree codec (mem.write op) after := by
      cases op with
      | putNode node => exact agree.putNode (lossless node List.mem_cons_self)
      | putIndex cf key nodeId =>
        have isIndex : cf ≠ .nodes := by
          simpa [WriteOp.isInsertion] using insertions _ List.mem_cons_self
        exact ⟨_, rfl, agree.putIndex isIndex key nodeId⟩
      | deleteNode id => exact Bool.noConfusion (insertions _ List.mem_cons_self)
      | deleteIndex cf key nodeId => exact Bool.noConfusion (insertions _ List.mem_cons_self)
    obtain ⟨between, ran, agreeBetween⟩ := first
    obtain ⟨after, ranRest, agreeAfter⟩ := inductionHypothesis
      (fun op member => insertions op (List.mem_cons_of_mem _ member))
      (fun node member => lossless node (List.mem_cons_of_mem _ member)) agreeBetween
    refine ⟨after, ?_, agreeAfter⟩
    rw [List.foldlM_cons, ran]
    exact ranRest

/-! ### The relation between the stores -/

/-- A store over the persistent backend. -/
abbrev RocksStore (F : Type) := FactumStore F (RocksDBBackend F)

/-- An empty store over the persistent backend. -/
def RocksStore.empty (codec : NodeCodec F) (registry : MorphemeRegistry) : RocksStore F :=
  FactumStore.withBackend (RocksDBBackend.new codec) registry

/-- The stores agree in everything but what their backends are made of. -/
abbrev StoresAgree (codec : NodeCodec F) : MemStore F → RocksStore F → Prop :=
  InStep (BackendsAgree codec)

namespace FactumStore

/-- The calls that the store makes agree, for nodes that the codec keeps. -/
theorem callsAgree_backends : CallsAgree (BackendsAgree codec) codec.Lossless where
  getNode id _ _ states := ⟨(states.nodes id).symm, states⟩
  returns s _ states id node s' found := by
    injection found with isNode
    exact states.lossless id node isNode
  putNode node lossless s t states := by
    obtain ⟨after, ran, agree⟩ := states.putNode lossless
    show ResultsAgree (BackendsAgree codec) (.ok () (s.putNode node))
      (RocksDBBackend.attempt (·.putNode node) t)
    rw [RocksDBBackend.attempt, ran]
    exact ⟨rfl, agree⟩
  batchWrite ops insertions lossless s t states := by
    obtain ⟨after, ran, agree⟩ := states.batchWrite insertions lossless
    show ResultsAgree (BackendsAgree codec) (InMemoryBackend.batchWrite ops s)
      (RocksDBBackend.attempt (fun backend => ops.foldlM RocksDBBackend.applyOp backend) t)
    rw [InMemoryBackend.batchWrite_run insertions, RocksDBBackend.attempt, ran]
    exact ⟨rfl, agree⟩
  retract _ lossless := lossless.retract

theorem storesAgree_empty (nodeOrder : Hash.Order NodeId)
    (hasher : Cf → Hash.Order (List UInt8)) (registry : MorphemeRegistry) :
    StoresAgree codec (MemStore.empty nodeOrder hasher registry)
      (RocksStore.empty codec registry) := by
  rw [MemStore.empty_eq]
  exact ⟨backendsAgree_new nodeOrder hasher, rfl, rfl, rfl, rfl, rfl, rfl⟩

end FactumStore

end Factum
