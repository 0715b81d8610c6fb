/-
This file says what the methods of the store do over the in-memory backend.

No call on that backend fails, so each method has one equation: the result and the
store after it as plain functions of the store before it. A store is read here
through two functions, the node under an identifier and the identifiers that an
index lists under a key; what a batch of insert operations does to them is the
content, and everything later reasons from the equations and not from the code.
-/

import Factum.Store

namespace Factum

open Stateful

/-- A store over the in-memory backend. -/
abbrev MemStore (F : Type) := FactumStore F (InMemoryBackend F)

/-- An empty in-memory store. -/
def MemStore.empty {F : Type} (nodeOrder : Hash.Order NodeId)
    (hasher : Cf → Hash.Order (List UInt8)) (registry : MorphemeRegistry) : MemStore F :=
  FactumStore.withBackend (InMemoryBackend.new nodeOrder hasher) registry

variable {F : Type}

/-- Looking up some keys gives the values of those that have one. -/
theorem map_filterMap_eq_filter {α β : Type} {find : α → Option β} {key : β → α}
    (keyed : ∀ a b, find a = some b → key b = a) (items : List α) :
    (items.filterMap find).map key = items.filter fun a => (find a).isSome := by
  induction items with
  | nil => rfl
  | cons a rest inductionHypothesis =>
    cases found : find a with
    | none =>
      rw [List.filterMap_cons_none found, List.filter_cons_of_neg (by simp [found]),
        inductionHypothesis]
    | some b =>
      rw [List.filterMap_cons_some found, List.filter_cons_of_pos (by simp [found]),
        List.map_cons, inductionHypothesis, keyed a b found]

/-! ### The batch of an insertion -/

/-- The operations that insertions use: nodes and entries of an index. -/
def WriteOp.isInsertion : WriteOp F → Bool
  | .putNode _ => true
  | .putIndex cf _ _ => cf != .nodes
  | .deleteNode _ => false
  | .deleteIndex _ _ _ => false

/-- The node that an operation writes. -/
def WriteOp.node? : WriteOp F → Option (Node F)
  | .putNode node => some node
  | _ => none

/-- The identifier that an operation adds to an index under a key. -/
def WriteOp.entryAt? (cf : Cf) (key : List UInt8) : WriteOp F → Option NodeId
  | .putIndex cf' key' nodeId => if cf' = cf ∧ key' = key then some nodeId else none
  | _ => none

/-- The entries that a node adds to an index under a key, one for each time it mentions it. -/
def indexEntries (registry : MorphemeRegistry) (cf : Cf) (key : List UInt8) (node : Node F) :
    List NodeId :=
  (buildInsertOps registry node).filterMap (WriteOp.entryAt? cf key)

mutual

theorem collectEntityIndexOps_shape (nodeId : NodeId) : ∀ (term : Term),
    ∀ op ∈ (collectEntityIndexOps nodeId term : List (WriteOp F)),
      ∃ key, op = .putIndex .byEntity (encodeIndexKey key nodeId) nodeId
  | .ent entity => by
    intro op member
    rw [collectEntityIndexOps, List.mem_singleton] at member
    exact ⟨_, member⟩
  | .compound ⟨_, args, _⟩ => by
    intro op member
    rw [collectEntityIndexOps] at member
    exact collectEntityIndexOpsList_shape nodeId args op member
  | .list items => by
    intro op member
    rw [collectEntityIndexOps] at member
    exact collectEntityIndexOpsList_shape nodeId items op member
  | .var _ => by
    intro op member
    rw [collectEntityIndexOps] at member
    exact absurd member (by simp)
  | .lit _ => by
    intro op member
    rw [collectEntityIndexOps] at member
    exact absurd member (by simp)

theorem collectEntityIndexOpsList_shape (nodeId : NodeId) : ∀ (terms : List Term),
    ∀ op ∈ (collectEntityIndexOpsList nodeId terms : List (WriteOp F)),
      ∃ key, op = .putIndex .byEntity (encodeIndexKey key nodeId) nodeId
  | [] => by
    intro op member
    rw [collectEntityIndexOpsList] at member
    exact absurd member (by simp)
  | term :: rest => by
    intro op member
    rw [collectEntityIndexOpsList, List.mem_append] at member
    rcases member with first | later
    · exact collectEntityIndexOps_shape nodeId term op first
    · exact collectEntityIndexOpsList_shape nodeId rest op later

end

/-- Every operation of an insertion writes the node or an index entry of the node. -/
theorem buildInsertOps_shape (registry : MorphemeRegistry) (node : Node F) :
    ∀ op ∈ buildInsertOps registry node, op = .putNode node ∨
      ∃ cf key, cf ≠ .nodes ∧ op = .putIndex cf (encodeIndexKey key node.id) node.id := by
  intro op member
  simp only [buildInsertOps, List.mem_append, List.mem_cons, List.not_mem_nil, or_false] at member
  rcases member with ((isNode | positional) | named) | isPred | isSrc | isPerm
  · exact .inl isNode
  · obtain ⟨key, isEntry⟩ := collectEntityIndexOpsList_shape _ _ op positional
    exact .inr ⟨.byEntity, key, by decide, isEntry⟩
  · obtain ⟨key, isEntry⟩ := collectEntityIndexOpsList_shape _ _ op named
    exact .inr ⟨.byEntity, key, by decide, isEntry⟩
  · exact .inr ⟨.byPred, _, by decide, isPred⟩
  · exact .inr ⟨.bySrc, _, by decide, isSrc⟩
  · exact .inr ⟨.byPerm, _, by decide, isPerm⟩

theorem isInsertion_of_mem_buildInsertOps {registry : MorphemeRegistry} {node : Node F}
    {op : WriteOp F} (member : op ∈ buildInsertOps registry node) : op.isInsertion = true := by
  rcases buildInsertOps_shape registry node op member with rfl | ⟨cf, key, isIndex, rfl⟩
  · rfl
  · simpa [WriteOp.isInsertion] using isIndex

theorem eq_of_putNode_mem_buildInsertOps {registry : MorphemeRegistry} {node other : Node F}
    (member : .putNode other ∈ buildInsertOps registry node) : other = node := by
  rcases buildInsertOps_shape registry node _ member with same | ⟨_, _, _, isEntry⟩
  · injection same
  · cases isEntry

/-- The only node that an insertion writes is the inserted one. -/
theorem nodes_buildInsertOps (registry : MorphemeRegistry) (node : Node F) :
    (buildInsertOps registry node).filterMap WriteOp.node? = [node] := by
  have noNode : ∀ terms : List Term,
      (collectEntityIndexOpsList node.id terms : List (WriteOp F)).filterMap WriteOp.node? =
        [] := by
    intro terms
    rw [List.filterMap_eq_nil_iff]
    intro op member
    obtain ⟨key, rfl⟩ := collectEntityIndexOpsList_shape node.id terms op member
    rfl
  simp only [buildInsertOps, List.filterMap_append, noNode, List.append_nil]
  rfl

/-- Every index entry of a node is the node's identifier, under a key that encodes it. -/
theorem mem_indexEntries {registry : MorphemeRegistry} {cf : Cf} {key : List UInt8}
    {node : Node F} {id : NodeId} (member : id ∈ indexEntries registry cf key node) :
    id = node.id ∧ ∃ shortKey, key = encodeIndexKey shortKey node.id := by
  obtain ⟨op, isOp, entry⟩ := List.mem_filterMap.mp member
  rcases buildInsertOps_shape registry node op isOp with rfl | ⟨cf', shortKey, _, rfl⟩
  · exact absurd entry (by simp [WriteOp.entryAt?])
  · simp only [WriteOp.entryAt?, Option.ite_none_right_eq_some, Option.some.injEq] at entry
    exact ⟨entry.2.symm, shortKey, entry.1.2.symm⟩

/-- Retracting a node does not change what it adds to the indices. -/
theorem indexEntries_retract (registry : MorphemeRegistry) (cf : Cf) (key : List UInt8)
    (node : Node F) :
    indexEntries registry cf key node.retract = indexEntries registry cf key node := by
  unfold indexEntries buildInsertOps Node.retract
  simp only [List.filterMap_append]
  rfl

/-! ### Writing to the backend -/

namespace InMemoryBackend

/-- The identifiers that an index lists under a key. -/
def idsAt (backend : InMemoryBackend F) (cf : Cf) (key : List UInt8) : List NodeId :=
  ((backend.indices.lookup cf).map (·.getList key)).getD []

/-- The backend after an operation that succeeds. -/
def write (backend : InMemoryBackend F) (op : WriteOp F) : InMemoryBackend F :=
  match backend.applyOp op with
  | .ok after => after
  | .error _ => backend

theorem getIndexMap_of_ne {cf : Cf} (isIndex : cf ≠ .nodes) : getIndexMap cf = some cf := by
  cases cf <;> first | rfl | exact absurd rfl isIndex

theorem applyOp_of_isInsertion (backend : InMemoryBackend F) {op : WriteOp F}
    (insertion : op.isInsertion = true) : backend.applyOp op = .ok (backend.write op) := by
  cases op with
  | putNode node => rfl
  | putIndex cf key nodeId =>
    have isIndex : cf ≠ .nodes := by simpa [WriteOp.isInsertion] using insertion
    simp only [write, applyOp, putIndex, getIndexMap_of_ne isIndex]
  | deleteNode id => exact Bool.noConfusion insertion
  | deleteIndex cf key nodeId => exact Bool.noConfusion insertion

/-- A batch of insert operations succeeds and writes them in order. -/
theorem batchWrite_run {ops : List (WriteOp F)} (insertions : ∀ op ∈ ops, op.isInsertion = true) :
    ∀ backend : InMemoryBackend F, batchWrite ops backend = .ok () (ops.foldl write backend) := by
  induction ops with
  | nil => exact fun _ => rfl
  | cons op rest inductionHypothesis =>
    intro backend
    have first : attempt (·.applyOp op) backend = .ok () (backend.write op) := by
      simp only [attempt, applyOp_of_isInsertion backend (insertions op List.mem_cons_self)]
    rw [batchWrite, bind_ok first]
    exact inductionHypothesis (fun op member => insertions op (List.mem_cons_of_mem _ member)) _

theorem nodes_write (backend : InMemoryBackend F) {op : WriteOp F}
    (insertion : op.isInsertion = true) :
    (backend.write op).nodes =
      op.node?.toList.foldl (fun nodes node => nodes.insert node.id node) backend.nodes := by
  cases op with
  | putNode node => rfl
  | putIndex cf key nodeId =>
    have isIndex : cf ≠ .nodes := by simpa [WriteOp.isInsertion] using insertion
    simp only [write, applyOp, putIndex, getIndexMap_of_ne isIndex, WriteOp.node?,
      Option.toList_none, List.foldl_nil]
  | deleteNode id => exact Bool.noConfusion insertion
  | deleteIndex cf key nodeId => exact Bool.noConfusion insertion

theorem idsAt_write (backend : InMemoryBackend F) {op : WriteOp F}
    (insertion : op.isInsertion = true) (cf : Cf) (key : List UInt8) :
    (backend.write op).idsAt cf key =
      backend.idsAt cf key ++ (op.entryAt? cf key).toList := by
  cases op with
  | putNode node => exact (List.append_nil _).symm
  | putIndex cf' key' nodeId =>
    have isIndex : cf' ≠ .nodes := by simpa [WriteOp.isInsertion] using insertion
    simp only [write, applyOp, putIndex, getIndexMap_of_ne isIndex, idsAt, WriteOp.entryAt?]
    by_cases sameCf : cf' = cf
    · subst sameCf
      rw [AList.lookup_insert, Option.map_some, Option.getD_some, Hash.Map.getList_push]
      cases backend.indices.lookup cf' <;> by_cases sameKey : key = key' <;>
        simp [sameKey, eq_comm]
    · rw [AList.lookup_insert_ne (Ne.symm sameCf)]
      simp [sameCf]
  | deleteNode id => exact Bool.noConfusion insertion
  | deleteIndex cf key nodeId => exact Bool.noConfusion insertion

theorem nodes_foldl_write {ops : List (WriteOp F)}
    (insertions : ∀ op ∈ ops, op.isInsertion = true) : ∀ backend : InMemoryBackend F,
    (ops.foldl write backend).nodes =
      (ops.filterMap WriteOp.node?).foldl (fun nodes node => nodes.insert node.id node)
        backend.nodes := by
  induction ops with
  | nil => exact fun _ => rfl
  | cons op rest inductionHypothesis =>
    intro backend
    have first := nodes_write backend (insertions op List.mem_cons_self)
    rw [List.foldl_cons, inductionHypothesis fun op member =>
      insertions op (List.mem_cons_of_mem _ member), first]
    cases written : op.node? with
    | none => rw [List.filterMap_cons_none written, Option.toList_none, List.foldl_nil]
    | some node => rw [List.filterMap_cons_some written, Option.toList_some, List.foldl_cons,
        List.foldl_cons, List.foldl_nil]

theorem idsAt_foldl_write {ops : List (WriteOp F)}
    (insertions : ∀ op ∈ ops, op.isInsertion = true) (cf : Cf) (key : List UInt8) :
    ∀ backend : InMemoryBackend F, (ops.foldl write backend).idsAt cf key =
      backend.idsAt cf key ++ ops.filterMap (WriteOp.entryAt? cf key) := by
  induction ops with
  | nil => exact fun _ => (List.append_nil _).symm
  | cons op rest inductionHypothesis =>
    intro backend
    rw [List.foldl_cons, inductionHypothesis fun op member =>
        insertions op (List.mem_cons_of_mem _ member),
      idsAt_write backend (insertions op List.mem_cons_self), List.append_assoc]
    cases entry : op.entryAt? cf key with
    | none => rw [List.filterMap_cons_none entry, Option.toList_none, List.nil_append]
    | some id => rw [List.filterMap_cons_some entry, Option.toList_some, List.singleton_append]

end InMemoryBackend

/-! ### The methods of the store -/

namespace FactumStore

/-- The node stored under an identifier. -/
def nodeAt (store : MemStore F) (id : NodeId) : Option (Node F) := store.backend.nodes.get? id

/-- The identifiers that an index lists under a key. -/
def idsAt (store : MemStore F) (cf : Cf) (key : List UInt8) : List NodeId :=
  store.backend.idsAt cf key

/-- The node stored under an identifier, if it is active. -/
def activeAt (store : MemStore F) (id : NodeId) : Option (Node F) :=
  (store.nodeAt id).filter (·.status == .active)

/-- What an index lists under the keys of a prefix. -/
def scan (store : MemStore F) (cf : Cf) (key : List UInt8) : List NodeId :=
  match store.backend.scanIndex cf key with
  | .ok ids => ids
  | .error _ => []

/-- The store after a batch on its backend. -/
def written (store : MemStore F) (ops : List (WriteOp F)) : MemStore F :=
  { store with backend := ops.foldl InMemoryBackend.write store.backend }

/-- The store after the indices in memory, the log and the subscribers took a node. -/
def takeNode (store : MemStore F) (node : Node F) : MemStore F :=
  ((store.updateIndices node).log (.insert node)).notifyInsert node

/-- The store after it took some nodes. -/
def admitted (store : MemStore F) (nodes : List (Node F)) : MemStore F :=
  nodes.foldl takeNode (store.written (nodes.flatMap (buildInsertOps store.registry)))

/-- The first identifier of a batch that is stored already or occurs twice. -/
def firstDuplicate (store : MemStore F) : List (Node F) → List NodeId → Option NodeId
  | [], _ => none
  | node :: rest, seen =>
    if (store.nodeAt node.id).isSome || node.id ∈ seen then some node.id
    else firstDuplicate store rest (node.id :: seen)

theorem activeAt_eq_some (store : MemStore F) (id : NodeId) (node : Node F) :
    store.activeAt id = some node ↔ store.nodeAt id = some node ∧ node.status = .active := by
  rw [activeAt, Option.filter_eq_some_iff]
  simp

theorem callBackend_getNode (store : MemStore F) (id : NodeId) :
    callBackend (StorageBackend.getNode id) store = .ok (store.nodeAt id) store := rfl

theorem getById_run (store : MemStore F) (id : NodeId) :
    getById id store = .ok (store.nodeAt id) store := rfl

theorem callBackend_putNode (store : MemStore F) (node : Node F) :
    callBackend (StorageBackend.putNode node) store =
      .ok () { store with backend := store.backend.putNode node } := rfl

theorem callBackend_batchWrite (store : MemStore F) {ops : List (WriteOp F)}
    (insertions : ∀ op ∈ ops, op.isInsertion = true) :
    callBackend (StorageBackend.batchWrite ops) store = .ok () (store.written ops) := by
  have ran : StorageBackend.batchWrite ops store.backend =
      .ok () (ops.foldl InMemoryBackend.write store.backend) :=
    InMemoryBackend.batchWrite_run insertions store.backend
  unfold callBackend
  rw [ran]
  rfl

theorem callBackendOr_scanIndex (store : MemStore F) (cf : Cf) (key : List UInt8) :
    callBackendOr [] (StorageBackend.scanIndex cf key) store = .ok (store.scan cf key) store := by
  have ran : StorageBackend.scanIndex cf key store.backend =
      match store.backend.scanIndex cf key with
      | .ok ids => .ok ids store.backend
      | .error error => .error error store.backend := by
    show (get >>= fun backend : InMemoryBackend F =>
      match backend.scanIndex cf key with
      | .ok ids => (pure ids : BackendM (InMemoryBackend F) _)
      | .error error => throw error) store.backend = _
    rw [get_bind_run]
    cases store.backend.scanIndex cf key <;> rfl
  unfold callBackendOr scan
  rw [ran]
  cases store.backend.scanIndex cf key <;> rfl

theorem len_run (store : MemStore F) : len store = .ok store.backend.nodes.size store := rfl

theorem rebuildIndices_run (store : MemStore F) :
    rebuildIndices store = .ok ()
      { store with
        depsRev := store.backend.nodes.values.foldl updateDepsRev ∅
        byValidity := store.backend.nodes.values.foldl updateByValidity ∅ } := by
  have listed : callBackendOr none (some <$> StorageBackend.iterNodes) store =
      .ok (some store.backend.nodes.values) store := rfl
  rw [rebuildIndices, bind_ok listed]
  rfl

theorem resolveNodes_run (store : MemStore F) (ids : List NodeId) :
    resolveNodes ids store = .ok (ids.filterMap store.activeAt) store := by
  induction ids with
  | nil => rfl
  | cons id rest inductionHypothesis =>
    rw [resolveNodes, bind_ok (getById_run store id), bind_ok inductionHypothesis, pure_run]
    cases found : store.activeAt id with
    | none =>
      rw [List.filterMap_cons_none found]
      rw [activeAt] at found
      rw [found]
      rfl
    | some node =>
      rw [List.filterMap_cons_some found]
      rw [activeAt] at found
      rw [found]
      rfl

theorem lookupIndex_run (store : MemStore F) (cf : Cf) (key : String) :
    lookupIndex cf key store =
      .ok ((store.scan cf (Utf8.ofString key)).filterMap store.activeAt) store := by
  rw [lookupIndex, bind_ok (callBackendOr_scanIndex store cf _), resolveNodes_run]

/-- What the validity index lists under the windows that start no later than the second of
an instant. -/
def listedAt (byValidity : ValidityIndex) (t : DateTime) : List NodeId :=
  (byValidity.toList.filter fun entry =>
    (validityCmp entry.1 (t.timestamp, 2 ^ 63 - 1)).isLE).flatMap Prod.snd

theorem lookupValidAt_run (store : MemStore F) (t : DateTime) :
    lookupValidAt t store =
      .ok (((listedAt store.byValidity t).filterMap store.activeAt).filter
        (·.validity.isValidAt t)) store := by
  unfold lookupValidAt
  rw [get_bind_run, bind_ok (resolveNodes_run store _)]
  rfl

theorem insert_run (store : MemStore F) (node : Node F) :
    insert node store =
      match store.rejection node with
      | some reason => .error (.fail (.invalidNode reason)) store
      | none =>
        if (store.nodeAt node.id).isSome then
          .error (.fail (.alreadyExists node.id.asStr)) store
        else .ok () (store.admitted [node]) := by
  unfold insert
  rw [get_bind_run]
  cases store.rejection node with
  | some reason => rfl
  | none =>
    simp only [bind_ok (callBackend_getNode store node.id)]
    cases stored : store.nodeAt node.id with
    | some other => rfl
    | none =>
      simp only [Option.isSome_none, Bool.false_eq_true, if_false, get_bind_run, modify_bind_run]
      rw [bind_ok (callBackend_batchWrite _ fun op => isInsertion_of_mem_buildInsertOps)]
      simp only [admitted, List.flatMap_cons, List.flatMap_nil, List.append_nil]
      rfl

theorem verifyAll_run (store : MemStore F) (nodes : List (Node F)) :
    verifyAll nodes store =
      match nodes.findSome? store.rejection with
      | some reason => .error (.fail (.invalidNode reason)) store
      | none => .ok () store := by
  induction nodes with
  | nil => rfl
  | cons node rest inductionHypothesis =>
    unfold verifyAll
    rw [get_bind_run]
    cases rejected : store.rejection node with
    | some reason =>
      rw [List.findSome?_cons, rejected]
      rfl
    | none =>
      rw [List.findSome?_cons, rejected]
      exact inductionHypothesis

theorem checkDuplicates_run (store : MemStore F) (nodes : List (Node F)) :
    ∀ seen : List NodeId, checkDuplicates nodes seen store =
      match store.firstDuplicate nodes seen with
      | some id => .error (.fail (.alreadyExists id.asStr)) store
      | none => .ok () store := by
  induction nodes with
  | nil => exact fun _ => rfl
  | cons node rest inductionHypothesis =>
    intro seen
    unfold checkDuplicates
    rw [bind_ok (callBackend_getNode store node.id), firstDuplicate]
    by_cases duplicate : ((store.nodeAt node.id).isSome || decide (node.id ∈ seen)) = true
    · rw [if_pos duplicate, if_pos duplicate]
      rfl
    · rw [if_neg duplicate, if_neg duplicate]
      exact inductionHypothesis (node.id :: seen)

theorem admitAll_run (nodes : List (Node F)) : ∀ store : MemStore F,
    admitAll nodes store = .ok () (nodes.foldl takeNode store) := by
  induction nodes with
  | nil => exact fun _ => rfl
  | cons node rest inductionHypothesis =>
    intro store
    exact inductionHypothesis (store.takeNode node)

theorem insertBatch_run (store : MemStore F) (nodes : List (Node F)) :
    insertBatch nodes store =
      match nodes.findSome? store.rejection with
      | some reason => .error (.fail (.invalidNode reason)) store
      | none =>
        match store.firstDuplicate nodes [] with
        | some id => .error (.fail (.alreadyExists id.asStr)) store
        | none => .ok () ((store.admitted nodes).log .checkpoint) := by
  unfold insertBatch
  have verified := verifyAll_run store nodes
  have unique := checkDuplicates_run store nodes []
  cases rejected : nodes.findSome? store.rejection with
  | some reason =>
    rw [rejected] at verified
    rw [bind_error verified]
  | none =>
    rw [rejected] at verified
    rw [bind_ok verified]
    cases duplicate : store.firstDuplicate nodes [] with
    | some id =>
      rw [duplicate] at unique
      rw [bind_error unique]
    | none =>
      rw [duplicate] at unique
      rw [bind_ok unique, get_bind_run]
      have insertions : ∀ op ∈ nodes.flatMap (buildInsertOps store.registry),
          op.isInsertion = true := by
        intro op member
        obtain ⟨node, _, isOp⟩ := List.mem_flatMap.mp member
        exact isInsertion_of_mem_buildInsertOps isOp
      rw [bind_ok (callBackend_batchWrite store insertions), bind_ok (admitAll_run nodes _)]
      rfl

/-! ### What an insertion changes -/

theorem foldl_takeNode (nodes : List (Node F)) : ∀ store : MemStore F,
    nodes.foldl takeNode store =
      { store with
        depsRev := nodes.foldl updateDepsRev store.depsRev
        byValidity := nodes.foldl updateByValidity store.byValidity
        wal := store.wal ++ nodes.map .insert
        subscriptions := nodes.foldl SubscriptionManager.notifyInsert store.subscriptions } := by
  induction nodes with
  | nil =>
    intro store
    simp
  | cons node rest inductionHypothesis =>
    intro store
    rw [List.foldl_cons, inductionHypothesis]
    simp only [takeNode, log, updateIndices, notifyInsert, List.foldl_cons, List.map_cons,
      List.append_assoc, List.singleton_append]

/-- The node map after an insertion: the new nodes over the old map. -/
theorem nodeAt_admitted (store : MemStore F) {nodes : List (Node F)}
    (distinct : (nodes.map Node.id).Nodup) (id : NodeId) :
    (store.admitted nodes).nodeAt id =
      (nodes.find? (·.id == id)).or (store.nodeAt id) := by
  have insertions : ∀ op ∈ nodes.flatMap (buildInsertOps store.registry),
      op.isInsertion = true := by
    intro op member
    obtain ⟨node, _, isOp⟩ := List.mem_flatMap.mp member
    exact isInsertion_of_mem_buildInsertOps isOp
  have written : (nodes.flatMap (buildInsertOps store.registry)).filterMap WriteOp.node? =
      nodes := by
    rw [List.filterMap_flatMap]
    simp only [nodes_buildInsertOps, List.flatMap_singleton']
  have inserts : ∀ (nodes : List (Node F)) (map : Hash.Map NodeId (Node F)),
      (nodes.map Node.id).Nodup →
      (nodes.foldl (fun map node => map.insert node.id node) map).get? id =
        (nodes.find? (·.id == id)).or (map.get? id) := by
    intro nodes
    induction nodes with
    | nil => exact fun _ _ => rfl
    | cons node rest inductionHypothesis =>
      intro map distinct
      rw [List.map_cons, List.nodup_cons] at distinct
      rw [List.foldl_cons, inductionHypothesis _ distinct.2, List.find?_cons]
      by_cases same : node.id = id
      · have absent : rest.find? (·.id == id) = none := by
          rw [List.find?_eq_none]
          intro other member sameId
          exact distinct.1 (List.mem_map.mpr ⟨other, member, by
            rw [same]
            exact eq_of_beq sameId⟩)
        rw [absent, same, beq_self_eq_true, Hash.Map.get?_insert_self]
        rfl
      · rw [beq_eq_false_iff_ne.mpr same, Hash.Map.get?_insert_of_ne _ _ (Ne.symm same)]
  unfold admitted nodeAt
  rw [foldl_takeNode]
  show ((nodes.flatMap (buildInsertOps store.registry)).foldl InMemoryBackend.write
    store.backend).nodes.get? id = _
  rw [InMemoryBackend.nodes_foldl_write insertions, written, inserts nodes _ distinct]

/-- The indices after an insertion: the entries of the new nodes after the old entries. -/
theorem idsAt_admitted (store : MemStore F) (nodes : List (Node F)) (cf : Cf)
    (key : List UInt8) :
    (store.admitted nodes).idsAt cf key =
      store.idsAt cf key ++ nodes.flatMap (indexEntries store.registry cf key) := by
  have insertions : ∀ op ∈ nodes.flatMap (buildInsertOps store.registry),
      op.isInsertion = true := by
    intro op member
    obtain ⟨node, _, isOp⟩ := List.mem_flatMap.mp member
    exact isInsertion_of_mem_buildInsertOps isOp
  unfold admitted idsAt
  rw [foldl_takeNode]
  show ((nodes.flatMap (buildInsertOps store.registry)).foldl InMemoryBackend.write
    store.backend).idsAt cf key = _
  rw [InMemoryBackend.idsAt_foldl_write insertions, List.filterMap_flatMap]
  rfl

theorem depsRev_admitted (store : MemStore F) (nodes : List (Node F)) :
    (store.admitted nodes).depsRev = nodes.foldl updateDepsRev store.depsRev := by
  rw [admitted, foldl_takeNode]
  rfl

theorem registry_admitted (store : MemStore F) (nodes : List (Node F)) :
    (store.admitted nodes).registry = store.registry := by
  rw [admitted, foldl_takeNode]
  rfl

/-- A batch without duplicates holds new and pairwise different nodes. -/
theorem firstDuplicate_eq_none (store : MemStore F) (nodes : List (Node F)) :
    ∀ seen : List NodeId, store.firstDuplicate nodes seen = none ↔
      (∀ node ∈ nodes, store.nodeAt node.id = none ∧ node.id ∉ seen) ∧
        (nodes.map Node.id).Nodup := by
  induction nodes with
  | nil => simp [firstDuplicate]
  | cons node rest inductionHypothesis =>
    intro seen
    rw [firstDuplicate]
    by_cases duplicate : ((store.nodeAt node.id).isSome || decide (node.id ∈ seen)) = true
    · rw [if_pos duplicate]
      simp only [Bool.or_eq_true, decide_eq_true_eq, Option.isSome_iff_ne_none] at duplicate
      simp only [reduceCtorEq, List.mem_cons, forall_eq_or_imp, false_iff]
      tauto
    · rw [if_neg duplicate, inductionHypothesis]
      simp only [Bool.or_eq_true, decide_eq_true_eq, Option.isSome_iff_ne_none, not_or,
        not_not] at duplicate
      simp only [List.mem_cons, forall_eq_or_imp, List.map_cons, List.nodup_cons, List.mem_map,
        not_or, not_exists, not_and]
      constructor
      · rintro ⟨fresh, nodup⟩
        refine ⟨⟨duplicate, fun other member => ⟨(fresh other member).1, (fresh other member).2.2⟩⟩,
          fun other member => (fresh other member).2.1, nodup⟩
      · rintro ⟨⟨_, fresh⟩, different, nodup⟩
        exact ⟨fun other member =>
          ⟨(fresh other member).1, different other member, (fresh other member).2⟩, nodup⟩

/-- What the reverse dependency map lists after it took some nodes. -/
theorem mem_listOf_foldl_updateDepsRev (nodes : List (Node F)) (dep id : NodeId) :
    ∀ depsRev, id ∈ Hash.listOf (nodes.foldl updateDepsRev depsRev) dep ↔
      id ∈ Hash.listOf depsRev dep ∨ ∃ node ∈ nodes, node.id = id ∧ dep ∈ node.deps := by
  have single : ∀ (nodeId : NodeId) (deps : List NodeId) depsRev,
      id ∈ Hash.listOf (deps.foldl (fun depsRev dep => Hash.pushTo depsRev dep nodeId) depsRev)
        dep ↔ id ∈ Hash.listOf depsRev dep ∨ nodeId = id ∧ dep ∈ deps := by
    intro nodeId deps
    induction deps with
    | nil => simp
    | cons other rest inductionHypothesis =>
      intro depsRev
      rw [List.foldl_cons, inductionHypothesis, Hash.listOf_pushTo]
      by_cases same : dep = other
      · subst same
        rw [if_pos rfl, List.mem_append, List.mem_singleton, List.mem_cons]
        tauto
      · rw [if_neg same, List.mem_cons]
        tauto
  induction nodes with
  | nil => simp
  | cons node rest inductionHypothesis =>
    intro depsRev
    rw [List.foldl_cons, inductionHypothesis, updateDepsRev, single]
    simp only [List.mem_cons, exists_eq_or_imp, or_assoc]

end FactumStore

end Factum
