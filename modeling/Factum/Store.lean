/-
This file embeds the store: insertion, batch insertion, the retraction cascade and
the lookups, over any storage backend.

The store owns its backend and the indices kept in memory, so a method is a
function from a store to a result and the store after it. An error leaves the
store as the failing method left it, which matters: what was written before the
error stays written. The cascade recurses once for each node that it retracts, so
its fuel is the number of nodes that it may retract and one more.
-/

import Factum.Morphemes
import Factum.Storage
import Factum.Subscription
import Factum.Verifier
import Factum.Library.Stateful
import Std.Data.TreeMap.Lemmas

namespace Factum

/-- A principal's identity and role bit mask. -/
structure PermissionContext where
  principal : String
  roleMask : UInt32
deriving DecidableEq, Repr

/-- A context with public access only. -/
def PermissionContext.publicAccess : PermissionContext :=
  ⟨"anonymous", PermissionTag.publicTag.bits⟩

/-- Entry of the write-ahead log. -/
inductive WalEntry (F : Type) where
  | insert (node : Node F)
  | retract (id : NodeId)
  | checkpoint
deriving DecidableEq

/-- Errors of store operations. -/
inductive StoreError where
  | notFound (id : String)
  | alreadyExists (id : String)
  | permissionDenied
  | invalidNode (reason : String)
  | storage (message : String)
deriving DecidableEq, Repr

/-- The `Display` text of a store error. -/
def StoreError.display : StoreError → String
  | .notFound id => "node not found: " ++ id
  | .alreadyExists id => "node already exists: " ++ id
  | .permissionDenied => "permission denied"
  | .invalidNode reason => "invalid node: " ++ reason
  | .storage message => "storage error: " ++ message

/-- Result of a retraction: the retracted nodes in order, whether the cascade was cut, and
the deepest level it reached. -/
structure RetractResult where
  retracted : List NodeId
  truncated : Bool
  depthReached : Nat
deriving DecidableEq, Repr

/-- Default maximum number of nodes to retract in a cascade. -/
def defaultMaxCascadeNodes : Nat := 100

/-- The order of the validity index: by start, then by end. -/
abbrev validityCmp : Int × Int → Int × Int → Ordering :=
  compareLex (compareOn Prod.fst) (compareOn Prod.snd)

/-- The validity index: from the start and the end of a window to the nodes with it. -/
abbrev ValidityIndex := Std.TreeMap (Int × Int) (List NodeId) validityCmp

/-- The key of a validity: its bounds in seconds, as 64-bit integers. -/
def Validity.indexKey : Validity → Int × Int
  | .forever => (-2 ^ 63, 2 ^ 63 - 1)
  | .window from_ until_ => (from_.timestamp, (until_.map (·.timestamp)).getD (2 ^ 63 - 1))

/-- The store. -/
structure FactumStore (F B : Type) where
  backend : B
  depsRev : AList (fun _ : NodeId => List NodeId)
  byValidity : ValidityIndex
  registry : MorphemeRegistry
  wal : List (WalEntry F)
  subscriptions : SubscriptionManager F
  verifiers : Option (VerifierRegistry F)

/-- A method of the store. -/
abbrev StoreM (F B : Type) := EStateM (Stop StoreError) (FactumStore F B)

/-! ### The index entries of a node -/

mutual

/-- Collect the entity index operations of a term: entities, the positional arguments of
compounds, and the items of lists. -/
def collectEntityIndexOps {F : Type} (nodeId : NodeId) : Term → List (WriteOp F)
  | .ent entity =>
    [.putIndex .byEntity (encodeIndexKey (Utf8.ofString entity.asStr) nodeId) nodeId]
  | .compound ⟨_, args, _⟩ => collectEntityIndexOpsList nodeId args
  | .list items => collectEntityIndexOpsList nodeId items
  | .var _ => []
  | .lit _ => []

/-- The entity index operations of some terms, one after the other. -/
def collectEntityIndexOpsList {F : Type} (nodeId : NodeId) : List Term → List (WriteOp F)
  | [] => []
  | term :: rest => collectEntityIndexOps nodeId term ++ collectEntityIndexOpsList nodeId rest

end

/-- The key of a provenance in the source index: a document, a premise or a principal. -/
def Provenance.sourceKey : Provenance → String
  | .verbatim doc _ => doc.asStr
  | .summary doc _ => doc.asStr
  | .extracted doc _ _ => doc.asStr
  | .derived from_ _ => from_.asStr
  | .asserted by_ => by_.asStr

/-- The four bytes of a 32-bit word, the highest first. -/
def toBeBytes (word : UInt32) : List UInt8 :=
  [(word >>> 24).toUInt8, (word >>> 16).toUInt8, (word >>> 8).toUInt8, word.toUInt8]

/-- Build the batch of write operations for inserting a node. -/
def buildInsertOps {F : Type} (registry : MorphemeRegistry) (node : Node F) :
    List (WriteOp F) :=
  let headKey := registry.headName node.predicate.head
  [.putNode node] ++
    collectEntityIndexOpsList node.id node.predicate.args ++
    collectEntityIndexOpsList node.id (node.predicate.named.map Prod.snd) ++
    [.putIndex .byPred (encodeIndexKey (Utf8.ofString headKey) node.id) node.id,
     .putIndex .bySrc (encodeIndexKey (Utf8.ofString node.provenance.sourceKey) node.id) node.id,
     .putIndex .byPerm (encodeIndexKey (toBeBytes node.permissions.bits) node.id) node.id]

/-! ### The indices in memory -/

/-- Record that a node depends on each of its dependencies. -/
def updateDepsRev {F : Type} (depsRev : AList (fun _ : NodeId => List NodeId)) (node : Node F) :
    AList (fun _ : NodeId => List NodeId) :=
  node.deps.foldl (fun depsRev dep => Hash.pushTo depsRev dep node.id) depsRev

/-- Record the validity of a node. -/
def updateByValidity {F : Type} (byValidity : ValidityIndex) (node : Node F) : ValidityIndex :=
  let key := node.validity.indexKey
  byValidity.insert key ((byValidity[key]?).getD [] ++ [node.id])

namespace FactumStore

variable {F B : Type}

/-- Append an entry to the log. -/
def log (store : FactumStore F B) (entry : WalEntry F) : FactumStore F B :=
  { store with wal := store.wal ++ [entry] }

/-- Update the indices in memory for a new node. -/
def updateIndices (store : FactumStore F B) (node : Node F) : FactumStore F B :=
  { store with depsRev := updateDepsRev store.depsRev node,
               byValidity := updateByValidity store.byValidity node }

/-- Tell the subscribers of an insertion. -/
def notifyInsert (store : FactumStore F B) (node : Node F) : FactumStore F B :=
  { store with subscriptions := store.subscriptions.notifyInsert node }

/-- Tell the subscribers of a retraction with its cascade. -/
def notifyRetract (store : FactumStore F B) (id : NodeId) (cascade : List NodeId) :
    FactumStore F B :=
  { store with subscriptions := store.subscriptions.notifyRetract id cascade }

/-- The reason for which the verifiers reject a node, when they are enabled and do. -/
def rejection (store : FactumStore F B) (node : Node F) : Option String :=
  match store.verifiers with
  | none => none
  | some registry =>
    match registry.verify node with
    | .fail reason => some reason
    | .pass => none
    | .inconclusive => none

/-- Call the backend. Its errors are storage errors of the store. -/
def callBackend {α : Type} (call : BackendM B α) : StoreM F B α := fun store =>
  match call store.backend with
  | .ok value backend => .ok value { store with backend := backend }
  | .error error backend =>
    .error (.fail (.storage error.display)) { store with backend := backend }

/-- Call the backend and answer an error with a default. -/
def callBackendOr {α : Type} (fallback : α) (call : BackendM B α) : StoreM F B α := fun store =>
  match call store.backend with
  | .ok value backend => .ok value { store with backend := backend }
  | .error _ backend => .ok fallback { store with backend := backend }

section Methods

variable [StorageBackend F B]

open StorageBackend

/-! ### Opening -/

/-- Rebuild the indices in memory from the nodes in the backend. -/
def rebuildIndices : StoreM F B Unit := do
  match ← callBackendOr none (some <$> iterNodes) with
  | none => return
  | some nodes =>
    modify fun store =>
      { store with depsRev := nodes.foldl updateDepsRev ∅,
                   byValidity := nodes.foldl updateByValidity ∅ }

/-- Create a store over a backend. -/
def withBackend (backend : B) (registry : MorphemeRegistry) : FactumStore F B :=
  Stateful.final rebuildIndices ⟨backend, ∅, ∅, registry, [], .new, none⟩

/-! ### Write operations -/

/-- Insert a new node. -/
def insert (node : Node F) : StoreM F B Unit := do
  if let some reason := (← get).rejection node then throw (.fail (.invalidNode reason))
  if (← callBackend (getNode node.id)).isSome then
    throw (.fail (.alreadyExists node.id.asStr))
  let ops := buildInsertOps (← get).registry node
  modify (·.log (.insert node))
  callBackend (batchWrite ops)
  modify (·.updateIndices node)
  modify (·.notifyInsert node)

/-- Verify every node of a batch. -/
def verifyAll : List (Node F) → StoreM F B Unit
  | [] => return
  | node :: rest => do
    if let some reason := (← get).rejection node then throw (.fail (.invalidNode reason))
    verifyAll rest

/-- Check that no node of a batch is stored already or occurs twice. -/
def checkDuplicates : List (Node F) → List NodeId → StoreM F B Unit
  | [], _ => return
  | node :: rest, seen => do
    if (← callBackend (getNode node.id)).isSome || node.id ∈ seen then
      throw (.fail (.alreadyExists node.id.asStr))
    checkDuplicates rest (node.id :: seen)

/-- Update the indices in memory, log and notify for each node of a batch. -/
def admitAll : List (Node F) → StoreM F B Unit
  | [] => return
  | node :: rest => do
    modify (·.updateIndices node)
    modify (·.log (.insert node))
    modify (·.notifyInsert node)
    admitAll rest

/-- Insert several nodes, all or none. -/
def insertBatch (nodes : List (Node F)) : StoreM F B Unit := do
  verifyAll nodes
  checkDuplicates nodes []
  let allOps := nodes.flatMap (buildInsertOps (← get).registry)
  callBackend (batchWrite allOps)
  admitAll nodes
  modify (·.log .checkpoint)

/-! ### Retraction -/

/-- The loop over the dependents of a retracted node. It stops at the first node that the
limit leaves no room for. -/
def retractDependents (maxNodes : Nat)
    (recurse : NodeId → Nat → RetractResult → StoreM F B RetractResult) (currentDepth : Nat) :
    List NodeId → RetractResult → StoreM F B RetractResult
  | [], result => return result
  | depId :: rest, result => do
    match ← callBackend (getNode depId) with
    | some node =>
      if node.isActiveDerived then
        if maxNodes ≤ result.retracted.length then return { result with truncated := true }
        else
          let result ← recurse depId (currentDepth + 1) result
          retractDependents maxNodes recurse currentDepth rest result
      else retractDependents maxNodes recurse currentDepth rest result
    | none => retractDependents maxNodes recurse currentDepth rest result

/-- Retract a node and, through the reverse dependencies, the derived nodes that rest on it. -/
def retractRecursive (maxNodes : Nat) :
    Nat → NodeId → Nat → RetractResult → StoreM F B RetractResult
  | 0, _, _, _ => throw .fuel
  | fuel + 1, id, currentDepth, result => do
    if maxNodes ≤ result.retracted.length then return { result with truncated := true }
    let result := { result with depthReached := max result.depthReached currentDepth }
    match ← callBackend (getNode id) with
    | none => throw (.fail (.notFound id.asStr))
    | some node =>
      if node.status == .retracted then return result
      callBackend (putNode node.retract)
      modify (·.log (.retract id))
      let result := { result with retracted := result.retracted ++ [id] }
      let dependents := Hash.listOf (← get).depsRev id
      retractDependents maxNodes (retractRecursive maxNodes fuel) currentDepth dependents result

/-- Retract a node with a maximum number of cascade nodes. -/
def retractWithLimit (id : NodeId) (maxNodes : Nat) : StoreM F B RetractResult := do
  let result ← retractRecursive maxNodes (maxNodes + 1) id 0 ⟨[], false, 0⟩
  modify (·.notifyRetract id result.retracted)
  return result

/-- Retract a node with the default limit. -/
def retract (id : NodeId) : StoreM F B (List NodeId) := do
  return (← retractWithLimit id defaultMaxCascadeNodes).retracted

/-! ### Read operations -/

/-- Get a node. -/
def getById (id : NodeId) : StoreM F B (Option (Node F)) := callBackendOr none (getNode id)

/-- Whether a permission context grants access to a node. -/
def checkPermission (node : Node F) (ctx : PermissionContext) : Bool :=
  node.permissions.grants ctx.roleMask

/-- Get a node, checking permissions. -/
def getWithPerm (id : NodeId) (ctx : PermissionContext) : StoreM F B (Node F) := do
  match ← getById id with
  | none => throw (.fail (.notFound id.asStr))
  | some node =>
    if !checkPermission node ctx then throw (.fail .permissionDenied)
    return node

/-- All nodes. -/
def all : StoreM F B (List (Node F)) := callBackendOr [] iterNodes

/-- All active nodes. -/
def allActive : StoreM F B (List (Node F)) := do
  return (← all).filter (·.status == .active)

/-- The nodes of some identifiers, those that are stored and active. -/
def resolveNodes : List NodeId → StoreM F B (List (Node F))
  | [] => return []
  | id :: rest => do
    let found ← getById id
    let nodes ← resolveNodes rest
    return (found.filter (·.status == .active)).toList ++ nodes

/-- The active nodes that an index lists under a key. -/
def lookupIndex (cf : Cf) (key : String) : StoreM F B (List (Node F)) := do
  let ids ← callBackendOr [] (scanIndex cf (Utf8.ofString key))
  resolveNodes ids

/-- Lookup nodes by entity. -/
def lookupByEntity (entity : EntityId) : StoreM F B (List (Node F)) :=
  lookupIndex .byEntity entity.asStr

/-- Lookup nodes by predicate head name. -/
def lookupByPred (head : String) : StoreM F B (List (Node F)) := lookupIndex .byPred head

/-- Lookup nodes by source document. -/
def lookupByDoc (doc : String) : StoreM F B (List (Node F)) := lookupIndex .bySrc doc

/-- Lookup nodes valid at an instant: the candidates are the entries of the validity index
that start no later than the second of the instant. -/
def lookupValidAt (t : DateTime) : StoreM F B (List (Node F)) := do
  let inRange := (← get).byValidity.toList.filter fun entry =>
    (validityCmp entry.1 (t.timestamp, 2 ^ 63 - 1)).isLE
  let nodes ← resolveNodes (inRange.flatMap Prod.snd)
  return nodes.filter (·.validity.isValidAt t)

/-- Total node count. -/
def len : StoreM F B Nat := callBackendOr 0 StorageBackend.len

end Methods

end FactumStore

end Factum
