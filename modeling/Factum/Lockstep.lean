/-
This file runs the store over two backends in step.

The store is one program over any backend. When two backends are related and the
calls that the store makes on them agree, for the nodes of some kind, then so do all
the methods of the store, and runs from agreeing stores have the same outcomes. What
the backends are made of and why their calls agree is left open here.
-/

import Factum.Runs
import Factum.Library.Simulation

namespace Factum

open Stateful Simulation

variable {F B B' : Type}

/-- Two stores that agree in everything but their backends, which are related. -/
structure InStep (related : B → B' → Prop) (left : FactumStore F B) (right : FactumStore F B') :
    Prop where
  backend : related left.backend right.backend
  depsRev : right.depsRev = left.depsRev
  byValidity : right.byValidity = left.byValidity
  registry : right.registry = left.registry
  wal : right.wal = left.wal
  subscriptions : right.subscriptions = left.subscriptions
  verifiers : right.verifiers = left.verifiers

/-- The calls that the store makes agree on related backends, for nodes of a kind that
retraction keeps. -/
structure CallsAgree [StorageBackend F B] [StorageBackend F B'] (related : B → B' → Prop)
    (kind : Node F → Prop) : Prop where
  getNode : ∀ id, Agree related (StorageBackend.getNode id : BackendM B (Option (Node F)))
    (StorageBackend.getNode id : BackendM B' (Option (Node F)))
  returns : ∀ (s : B) (t : B'), related s t → ∀ id node s',
    StorageBackend.getNode id s = .ok (some node) s' → kind node
  putNode : ∀ node, kind node → Agree related (StorageBackend.putNode node : BackendM B Unit)
    (StorageBackend.putNode node : BackendM B' Unit)
  batchWrite : ∀ ops : List (WriteOp F), (∀ op ∈ ops, op.isInsertion = true) →
    (∀ node, .putNode node ∈ ops → kind node) →
    Agree related (StorageBackend.batchWrite ops : BackendM B Unit)
      (StorageBackend.batchWrite ops : BackendM B' Unit)
  retract : ∀ node, kind node → kind node.retract

namespace FactumStore

variable {related : B → B' → Prop} {kind : Node F → Prop}

/-! ### The steps agree -/

/-- Calls that agree on the backends agree on the stores. -/
theorem agree_callBackend {α : Type} {left : BackendM B α} {right : BackendM B' α}
    (agree : Agree related left right) :
    Agree (InStep related) (callBackend left : StoreM F B α)
      (callBackend right : StoreM F B' α) := by
  intro s t states
  have step := agree s.backend t.backend states.backend
  unfold callBackend
  cases ran : left s.backend <;> cases ran' : right t.backend <;> rw [ran, ran'] at step
  · exact ⟨step.1, { states with backend := step.2 }⟩
  · exact step.elim
  · exact step.elim
  · exact ⟨by rw [step.1], { states with backend := step.2 }⟩

theorem agree_callBackendOr {α : Type} (fallback : α) {left : BackendM B α}
    {right : BackendM B' α} (agree : Agree related left right) :
    Agree (InStep related) (callBackendOr fallback left : StoreM F B α)
      (callBackendOr fallback right : StoreM F B' α) := by
  intro s t states
  have step := agree s.backend t.backend states.backend
  unfold callBackendOr
  cases ran : left s.backend <;> cases ran' : right t.backend <;> rw [ran, ran'] at step
  · exact ⟨step.1, { states with backend := step.2 }⟩
  · exact step.elim
  · exact step.elim
  · exact ⟨rfl, { states with backend := step.2 }⟩

theorem rejection_eq {left : FactumStore F B} {right : FactumStore F B'}
    (states : InStep related left right) (node : Node F) :
    right.rejection node = left.rejection node := by
  unfold FactumStore.rejection
  rw [states.verifiers]

theorem agree_log (entry : WalEntry F) :
    Agree (InStep related) (modify (·.log entry) : StoreM F B _)
      (modify (·.log entry) : StoreM F B' _) :=
  .update fun _ _ states => { states with wal := congrArg (· ++ [entry]) states.wal }

theorem agree_updateIndices (node : Node F) :
    Agree (InStep related) (modify (·.updateIndices node) : StoreM F B _)
      (modify (·.updateIndices node) : StoreM F B' _) :=
  .update fun _ _ states =>
    { states with
      depsRev := congrArg (updateDepsRev · node) states.depsRev
      byValidity := congrArg (updateByValidity · node) states.byValidity }

theorem agree_notifyInsert (node : Node F) :
    Agree (InStep related) (modify (·.notifyInsert node) : StoreM F B _)
      (modify (·.notifyInsert node) : StoreM F B' _) :=
  .update fun _ _ states =>
    { states with subscriptions := congrArg (·.notifyInsert node) states.subscriptions }

theorem agree_notifyRetract (id : NodeId) (cascade : List NodeId) :
    Agree (InStep related) (modify (·.notifyRetract id cascade) : StoreM F B _)
      (modify (·.notifyRetract id cascade) : StoreM F B' _) :=
  .update fun _ _ states =>
    { states with subscriptions := congrArg (·.notifyRetract id cascade) states.subscriptions }

theorem agree_verifyAll : ∀ nodes : List (Node F),
    Agree (InStep related) (verifyAll nodes : StoreM F B _) (verifyAll nodes : StoreM F B' _) := by
  intro nodes
  induction nodes with
  | nil => exact .pure ()
  | cons node rest inductionHypothesis =>
    refine .get_bind fun s t states => ?_
    rw [rejection_eq states node]
    cases s.rejection node with
    | some reason => exact .throw _
    | none => exact inductionHypothesis

theorem agree_admitAll : ∀ nodes : List (Node F),
    Agree (InStep related) (admitAll nodes : StoreM F B _)
      (admitAll nodes : StoreM F B' _) := by
  intro nodes
  induction nodes with
  | nil => exact .pure ()
  | cons node rest inductionHypothesis =>
    refine .bind (agree_updateIndices node) fun _ => ?_
    refine .bind (agree_log _) fun _ => ?_
    exact .bind (agree_notifyInsert node) fun _ => inductionHypothesis

section Calls

variable [StorageBackend F B] [StorageBackend F B']

theorem agree_getNode (calls : CallsAgree related kind) (id : NodeId) :
    Agree (InStep related)
      (callBackend (StorageBackend.getNode id) : StoreM F B (Option (Node F)))
      (callBackend (StorageBackend.getNode id) : StoreM F B' (Option (Node F))) :=
  agree_callBackend (calls.getNode id)

/-- What the backends return is a node of the kind. -/
theorem kind_of_getNode (calls : CallsAgree related kind) (id : NodeId) :
    ∀ (s : FactumStore F B) (t : FactumStore F B'), InStep related s t → ∀ found s',
      callBackend (StorageBackend.getNode id) s = .ok found s' →
      ∀ node, found = some node → kind node := by
  rintro s t states found s' ran node rfl
  unfold callBackend at ran
  cases got : StorageBackend.getNode id s.backend with
  | ok value backend =>
    rw [got] at ran
    injection ran with isNode
    rw [isNode] at got
    exact calls.returns s.backend t.backend states.backend id node backend got
  | error error backend =>
    rw [got] at ran
    cases ran

theorem agree_putNode (calls : CallsAgree related kind) {node : Node F} (ofKind : kind node) :
    Agree (InStep related) (callBackend (StorageBackend.putNode node) : StoreM F B Unit)
      (callBackend (StorageBackend.putNode node) : StoreM F B' Unit) :=
  agree_callBackend (calls.putNode node ofKind)

theorem agree_batchWrite (calls : CallsAgree related kind) {ops : List (WriteOp F)}
    (insertions : ∀ op ∈ ops, op.isInsertion = true)
    (ofKind : ∀ node, .putNode node ∈ ops → kind node) :
    Agree (InStep related) (callBackend (StorageBackend.batchWrite ops) : StoreM F B Unit)
      (callBackend (StorageBackend.batchWrite ops) : StoreM F B' Unit) :=
  agree_callBackend (calls.batchWrite ops insertions ofKind)

/-! ### The methods agree -/

theorem agree_insert (calls : CallsAgree related kind) {node : Node F} (ofKind : kind node) :
    Agree (InStep related) (insert node : StoreM F B _) (insert node : StoreM F B' _) := by
  refine .get_bind fun s t states => ?_
  rw [rejection_eq states node]
  cases s.rejection node with
  | some reason => exact .throw _
  | none =>
    refine .bind (agree_getNode calls node.id) fun found => ?_
    refine .ite (fun _ => .throw _) fun _ => ?_
    refine .get_bind fun s t states => ?_
    rw [states.registry]
    refine .bind (agree_log _) fun _ => ?_
    refine .bind (agree_batchWrite calls (fun op => isInsertion_of_mem_buildInsertOps)
      fun other isOp => ?_) fun _ => ?_
    · obtain rfl := eq_of_putNode_mem_buildInsertOps isOp
      exact ofKind
    · exact .bind (agree_updateIndices node) fun _ => agree_notifyInsert node

theorem agree_checkDuplicates (calls : CallsAgree related kind) :
    ∀ (nodes : List (Node F)) (seen : List NodeId),
    Agree (InStep related) (checkDuplicates nodes seen : StoreM F B _)
      (checkDuplicates nodes seen : StoreM F B' _) := by
  intro nodes
  induction nodes with
  | nil => exact fun _ => .pure ()
  | cons node rest inductionHypothesis =>
    intro seen
    refine .bind (agree_getNode calls node.id) fun found => ?_
    exact .ite (fun _ => .throw _) fun _ => inductionHypothesis _

theorem agree_insertBatch (calls : CallsAgree related kind) {nodes : List (Node F)}
    (ofKind : ∀ node ∈ nodes, kind node) :
    Agree (InStep related) (insertBatch nodes : StoreM F B _)
      (insertBatch nodes : StoreM F B' _) := by
  refine .bind (agree_verifyAll nodes) fun _ => ?_
  refine .bind (agree_checkDuplicates calls nodes []) fun _ => ?_
  refine .get_bind fun s t states => ?_
  rw [states.registry]
  refine .bind (agree_batchWrite calls (fun op member => ?_) fun other member => ?_) fun _ => ?_
  · obtain ⟨node, _, isOp⟩ := List.mem_flatMap.mp member
    exact isInsertion_of_mem_buildInsertOps isOp
  · obtain ⟨node, isNode, isOp⟩ := List.mem_flatMap.mp member
    obtain rfl := eq_of_putNode_mem_buildInsertOps isOp
    exact ofKind other isNode
  · exact .bind (agree_admitAll nodes) fun _ => agree_log _

theorem agree_retractDependents (calls : CallsAgree related kind) (maxNodes : Nat)
    {recurse : NodeId → Nat → RetractResult → StoreM F B RetractResult}
    {recurse' : NodeId → Nat → RetractResult → StoreM F B' RetractResult}
    (agree : ∀ id level result,
      Agree (InStep related) (recurse id level result) (recurse' id level result)) (level : Nat) :
    ∀ (ids : List NodeId) (result : RetractResult),
      Agree (InStep related) (retractDependents maxNodes recurse level ids result)
        (retractDependents maxNodes recurse' level ids result) := by
  intro ids
  induction ids with
  | nil => exact fun result => .pure result
  | cons id rest inductionHypothesis =>
    intro result
    refine .bind (agree_getNode calls id) fun found => ?_
    cases found with
    | none => exact inductionHypothesis result
    | some node =>
      refine .ite (fun _ => ?_) fun _ => inductionHypothesis result
      refine .ite (fun _ => .pure _) fun _ => ?_
      exact .bind (agree id (level + 1) result) inductionHypothesis

theorem agree_retractRecursive (calls : CallsAgree related kind) (maxNodes : Nat) :
    ∀ (fuel : Nat) (id : NodeId) (level : Nat) (result : RetractResult),
    Agree (InStep related)
      (retractRecursive maxNodes fuel id level result : StoreM F B _)
      (retractRecursive maxNodes fuel id level result : StoreM F B' _) := by
  intro fuel
  induction fuel with
  | zero => exact fun _ _ _ => .throw _
  | succ fuel inductionHypothesis =>
    intro id level result
    refine .ite (fun _ => .pure _) fun _ => ?_
    refine .bind_of (agree_getNode calls id) (kind_of_getNode calls id) fun found ofKind => ?_
    cases found with
    | none => exact .throw _
    | some node =>
      refine .ite (fun _ => .pure _) fun _ => ?_
      refine .bind (agree_putNode calls (calls.retract node (ofKind node rfl))) fun _ => ?_
      refine .bind (agree_log _) fun _ => ?_
      refine .get_bind fun s t states => ?_
      rw [states.depsRev]
      exact agree_retractDependents calls maxNodes inductionHypothesis level _ _

theorem agree_retractWithLimit (calls : CallsAgree related kind) (id : NodeId) (maxNodes : Nat) :
    Agree (InStep related) (retractWithLimit id maxNodes : StoreM F B _)
      (retractWithLimit id maxNodes : StoreM F B' _) := by
  refine .bind (agree_retractRecursive calls maxNodes _ id 0 _) fun result => ?_
  exact .bind (agree_notifyRetract id _) fun _ => .pure result

/-- Every call agrees. -/
theorem agree_perform (calls : CallsAgree related kind) {call : Call F}
    (ofKind : ∀ node ∈ call.offered, kind node) :
    Agree (InStep related) (perform call : StoreM F B _)
      (perform call : StoreM F B' _) := by
  cases call with
  | insert node =>
    exact .bind (agree_insert calls (ofKind node List.mem_cons_self)) fun _ => .pure _
  | insertBatch nodes => exact .bind (agree_insertBatch calls ofKind) fun _ => .pure _
  | retractWithLimit id maxNodes =>
    exact .bind (agree_retractWithLimit calls id maxNodes) fun _ => .pure _
  | subscribe pattern =>
    refine .bind (.update fun _ _ states => ?_) fun _ => .pure _
    exact { states with subscriptions := congrArg (·.subscribe pattern) states.subscriptions }
  | setVerifiers verifiers =>
    refine .bind (.update fun _ _ states => ?_) fun _ => .pure _
    exact { states with verifiers := rfl }

/-- Runs from agreeing stores have the same outcomes and leave agreeing stores. -/
theorem agree_run (calls : CallsAgree related kind) (made : List (Call F)) :
    ∀ {left : FactumStore F B} {right : FactumStore F B'}, InStep related left right →
      (∀ call ∈ made, ∀ node ∈ call.offered, kind node) →
      outcomes left made = outcomes right made ∧
        InStep related (left.run made) (right.run made) := by
  induction made with
  | nil => exact fun states _ => ⟨rfl, states⟩
  | cons call rest inductionHypothesis =>
    intro left right states ofKind
    have step := agree_perform calls (ofKind call List.mem_cons_self)
    obtain ⟨sameRest, statesAfter⟩ := inductionHypothesis (step.final states)
      fun other member => ofKind other (List.mem_cons_of_mem _ member)
    exact ⟨congrArg₂ List.cons (step.answer states) sameRest, statesAfter⟩

/-! ### The lookups agree -/

theorem agree_getById (calls : CallsAgree related kind) (id : NodeId) :
    Agree (InStep related) (getById id : StoreM F B _) (getById id : StoreM F B' _) :=
  agree_callBackendOr none (calls.getNode id)

theorem agree_resolveNodes (calls : CallsAgree related kind) : ∀ ids : List NodeId,
    Agree (InStep related) (resolveNodes ids : StoreM F B _)
      (resolveNodes ids : StoreM F B' _) := by
  intro ids
  induction ids with
  | nil => exact .pure []
  | cons id rest inductionHypothesis =>
    refine .bind (agree_getById calls id) fun found => ?_
    exact .bind inductionHypothesis fun nodes => .pure _

theorem agree_lookupValidAt (calls : CallsAgree related kind) (t : DateTime) :
    Agree (InStep related) (lookupValidAt t : StoreM F B _)
      (lookupValidAt t : StoreM F B' _) := by
  refine .get_bind fun left right states => ?_
  rw [states.byValidity]
  exact .bind (agree_resolveNodes calls _) fun nodes => .pure _

end Calls

end FactumStore

end Factum
