/-
This file embeds the storage layer: the operations that a backend offers, the
encoding of index keys, and the in-memory backend.

A backend is any type with the operations; each returns a value or an error and
the backend after the call, so that a backend may fail at any point. Reads return
it too. The in-memory backend keeps the nodes in a hash map and, for each index
column family, a hash map from keys to lists of node identifiers.
-/

import Factum.Types
import Factum.Library.Utf8
import Factum.Library.HashMap

namespace Factum

/-- Column family identifiers. -/
inductive Cf where
  | nodes
  | byEntity
  | byPred
  | bySrc
  | byPerm
deriving DecidableEq, Repr

/-- The name of a column family. -/
def Cf.name : Cf → String
  | .nodes => "nodes"
  | .byEntity => "by_entity"
  | .byPred => "by_pred"
  | .bySrc => "by_src"
  | .byPerm => "by_perm"

/-- Write operation of an atomic batch. -/
inductive WriteOp (F : Type) where
  | putNode (node : Node F)
  | deleteNode (id : NodeId)
  | putIndex (cf : Cf) (key : List UInt8) (nodeId : NodeId)
  | deleteIndex (cf : Cf) (key : List UInt8) (nodeId : NodeId)
deriving DecidableEq

/-- Errors of storage operations. -/
inductive StorageError where
  | io (message : String)
  | serialization (message : String)
  | cfNotFound (name : String)
deriving DecidableEq, Repr

/-- The `Display` text of a storage error. -/
def StorageError.display : StorageError → String
  | .io message => "IO error: " ++ message
  | .serialization message => "serialization error: " ++ message
  | .cfNotFound name => "column family not found: " ++ name

/-- A call on a backend. -/
abbrev BackendM (B : Type) := EStateM StorageError B

/-- The persistence layer. -/
class StorageBackend (F : outParam Type) (B : Type) where
  /-- Get a node by its identifier. -/
  getNode : NodeId → BackendM B (Option (Node F))
  /-- Insert or overwrite a node. -/
  putNode : Node F → BackendM B Unit
  /-- Delete a node. -/
  deleteNode : NodeId → BackendM B Unit
  /-- The identifiers indexed in a column family under a key. -/
  scanIndex : Cf → List UInt8 → BackendM B (List NodeId)
  /-- Add an index entry. -/
  putIndex : Cf → List UInt8 → NodeId → BackendM B Unit
  /-- Remove an index entry. -/
  deleteIndex : Cf → List UInt8 → NodeId → BackendM B Unit
  /-- Execute a batch of write operations. -/
  batchWrite : List (WriteOp F) → BackendM B Unit
  /-- The number of nodes. -/
  len : BackendM B Nat
  /-- All nodes. -/
  iterNodes : BackendM B (List (Node F))

/-! ### Index keys -/

/-- Encode an index key: a key, a zero byte and the node identifier. -/
def encodeIndexKey (key : List UInt8) (nodeId : NodeId) : List UInt8 :=
  key ++ 0 :: Utf8.ofString nodeId.asStr

/-- What the index keys of all nodes under a key start with. -/
def encodeIndexPrefix (key : List UInt8) : List UInt8 := key ++ [0]

/-- Decode the node identifier after the last zero byte of an index key. -/
def decodeNodeIdFromIndex (key : List UInt8) : Option NodeId :=
  if 0 ∈ key then
    (Utf8.toString? (key.reverse.takeWhile (· != 0)).reverse).map NodeId.mk
  else none

/-! ### The in-memory backend -/

/-- The in-memory backend. The hasher gives each new index its order of iteration. -/
structure InMemoryBackend (F : Type) where
  nodes : Hash.Map NodeId (Node F)
  indices : AList (fun _ : Cf => Hash.Map (List UInt8) (List NodeId))
  hasher : Cf → Hash.Order (List UInt8)

namespace InMemoryBackend

variable {F : Type}

/-- A backend without nodes and with the four indices, all empty. -/
def new (nodeOrder : Hash.Order NodeId) (hasher : Cf → Hash.Order (List UInt8)) :
    InMemoryBackend F where
  nodes := .empty nodeOrder
  indices := [Cf.byEntity, .byPred, .bySrc, .byPerm].foldl
    (fun indices cf => indices.insert cf (.empty (hasher cf))) ∅
  hasher

/-- The column families that are indices. -/
def getIndexMap : Cf → Option Cf
  | .byEntity => some .byEntity
  | .byPred => some .byPred
  | .bySrc => some .bySrc
  | .byPerm => some .byPerm
  | .nodes => none

/-- Store a node under its identifier. -/
def putNode (backend : InMemoryBackend F) (node : Node F) : InMemoryBackend F :=
  { backend with nodes := backend.nodes.insert node.id node }

/-- Remove a node. -/
def deleteNode (backend : InMemoryBackend F) (id : NodeId) : InMemoryBackend F :=
  { backend with nodes := backend.nodes.erase id }

/-- All identifiers under the keys that start with the encoded key, in the order in which
the index iterates over its keys. -/
def scanIndex (backend : InMemoryBackend F) (cf : Cf) (key : List UInt8) :
    Except StorageError (List NodeId) :=
  match backend.indices.lookup cf with
  | none => .error (.cfNotFound cf.name)
  | some cfMap =>
    .ok ((cfMap.toList.filter fun entry => (encodeIndexPrefix key).isPrefixOf entry.1).flatMap
      Prod.snd)

/-- Enter an identifier under a key, after those that are there. -/
def putIndex (backend : InMemoryBackend F) (cf : Cf) (key : List UInt8) (nodeId : NodeId) :
    Except StorageError (InMemoryBackend F) :=
  match getIndexMap cf with
  | none => .error (.cfNotFound cf.name)
  | some cfStatic =>
    let cfMap := (backend.indices.lookup cfStatic).getD (.empty (backend.hasher cfStatic))
    .ok { backend with indices := backend.indices.insert cfStatic (cfMap.push key nodeId) }

/-- Remove an identifier from under a key. -/
def deleteIndex (backend : InMemoryBackend F) (cf : Cf) (key : List UInt8) (nodeId : NodeId) :
    Except StorageError (InMemoryBackend F) :=
  match getIndexMap cf with
  | none => .error (.cfNotFound cf.name)
  | some cfStatic =>
    match backend.indices.lookup cfStatic with
    | none => .ok backend
    | some cfMap =>
      match cfMap.get? key with
      | none => .ok backend
      | some ids =>
        let kept := ids.filter (· != nodeId)
        let cfMap := if kept.isEmpty then cfMap.erase key else cfMap.insert key kept
        .ok { backend with indices := backend.indices.insert cfStatic cfMap }

/-- One operation of a batch. -/
def applyOp (backend : InMemoryBackend F) : WriteOp F → Except StorageError (InMemoryBackend F)
  | .putNode node => .ok (backend.putNode node)
  | .deleteNode id => .ok (backend.deleteNode id)
  | .putIndex cf key nodeId => backend.putIndex cf key nodeId
  | .deleteIndex cf key nodeId => backend.deleteIndex cf key nodeId

/-- Run an operation that may fail as a call, which leaves a failing backend as it was. -/
def attempt (operation : InMemoryBackend F → Except StorageError (InMemoryBackend F)) :
    BackendM (InMemoryBackend F) Unit := fun backend =>
  match operation backend with
  | .ok after => .ok () after
  | .error error => .error error backend

/-- Execute a batch one operation after the other. -/
def batchWrite : List (WriteOp F) → BackendM (InMemoryBackend F) Unit
  | [] => pure ()
  | op :: ops => do
    attempt (·.applyOp op)
    batchWrite ops

instance : StorageBackend F (InMemoryBackend F) where
  getNode id := return (← get).nodes.get? id
  putNode node := modify (·.putNode node)
  deleteNode id := modify (·.deleteNode id)
  scanIndex cf key := do
    match (← get).scanIndex cf key with
    | .ok ids => return ids
    | .error error => throw error
  putIndex cf key nodeId := attempt (·.putIndex cf key nodeId)
  deleteIndex cf key nodeId := attempt (·.deleteIndex cf key nodeId)
  batchWrite := batchWrite
  len := return (← get).nodes.size
  iterNodes := return (← get).nodes.values

end InMemoryBackend

end Factum
