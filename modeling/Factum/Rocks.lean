/-
This file embeds the persistent backend.

The database is one sorted map from byte keys to byte values for each column
family. A node is stored as bytes under its identifier, and an index entry as an
empty value under a key that ends in the identifier. The codec of nodes is a
parameter, and so is everything the database could do wrong: here it does not fail.
-/

import Factum.Storage
import Std.Data.TreeMap.Lemmas

namespace Factum

/-- How nodes are written as bytes and read back. -/
structure NodeCodec (F : Type) where
  serializeNode : Node F → Except String (List UInt8)
  deserializeNode : List UInt8 → Except String (Node F)

/-- A column family: a sorted map of bytes. -/
abbrev Column := Std.TreeMap (List UInt8) (List UInt8) compare

/-- RocksDB-backed storage: every column family exists once the database is open. -/
structure RocksDBBackend (F : Type) where
  columns : Cf → Column
  codec : NodeCodec F

namespace RocksDBBackend

variable {F : Type}

/-- Open a new database. -/
def new (codec : NodeCodec F) : RocksDBBackend F := ⟨fun _ => ∅, codec⟩

/-- Write a value in a column family. -/
def putCf (backend : RocksDBBackend F) (cf : Cf) (key value : List UInt8) : RocksDBBackend F :=
  let column := (backend.columns cf).insert key value
  { backend with columns := Function.update backend.columns cf column }

theorem columns_putCf (backend : RocksDBBackend F) (cf : Cf) (key value : List UInt8) (other : Cf) :
    (backend.putCf cf key value).columns other =
      if other = cf then (backend.columns cf).insert key value else backend.columns other :=
  Function.update_apply _ _ _ _

/-- Delete a key from a column family. -/
def deleteCf (backend : RocksDBBackend F) (cf : Cf) (key : List UInt8) : RocksDBBackend F :=
  let column := (backend.columns cf).erase key
  { backend with columns := Function.update backend.columns cf column }

theorem columns_deleteCf (backend : RocksDBBackend F) (cf : Cf) (key : List UInt8) (other : Cf) :
    (backend.deleteCf cf key).columns other =
      if other = cf then (backend.columns cf).erase key else backend.columns other :=
  Function.update_apply _ _ _ _

/-- A node that cannot be decoded counts as not found. -/
def getNode (backend : RocksDBBackend F) (id : NodeId) : Option (Node F) :=
  match (backend.columns .nodes)[Utf8.ofString id.asStr]? with
  | none => none
  | some bytes =>
    match backend.codec.deserializeNode bytes with
    | .ok node => some node
    | .error _ => none

theorem getNode_putCf_nodes (backend : RocksDBBackend F) (key value : List UInt8) (id : NodeId) :
    (backend.putCf .nodes key value).getNode id =
      if key = Utf8.ofString id.asStr then (backend.codec.deserializeNode value).toOption
      else backend.getNode id := by
  unfold getNode
  rw [columns_putCf, if_pos rfl, Std.TreeMap.getElem?_insert]
  simp only [Std.compare_eq_iff_eq]
  by_cases same : key = Utf8.ofString id.asStr
  · rw [if_pos same, if_pos same]
    show (match backend.codec.deserializeNode value with
      | .ok node => some node
      | .error _ => none) = _
    cases backend.codec.deserializeNode value <;> rfl
  · rw [if_neg same, if_neg same]
    rfl

theorem getNode_putCf_of_ne {backend : RocksDBBackend F} {cf : Cf} (isIndex : cf ≠ .nodes)
    (key value : List UInt8) (id : NodeId) :
    (backend.putCf cf key value).getNode id = backend.getNode id := by
  unfold getNode
  rw [columns_putCf, if_neg (Ne.symm isIndex)]
  rfl

/-- Store a node as its bytes. -/
def putNode (backend : RocksDBBackend F) (node : Node F) :
    Except StorageError (RocksDBBackend F) :=
  match backend.codec.serializeNode node with
  | .ok bytes => .ok (backend.putCf .nodes (Utf8.ofString node.id.asStr) bytes)
  | .error message => .error (.serialization message)

/-- The identifiers at the ends of the keys from the encoded key on, while they start with
it. -/
def scanIndex (backend : RocksDBBackend F) (cf : Cf) (key : List UInt8) : List NodeId :=
  let searchPrefix := encodeIndexPrefix key
  let sought := (backend.columns cf).toList.dropWhile fun entry =>
    compare entry.1 searchPrefix == .lt
  (sought.takeWhile fun entry => searchPrefix.isPrefixOf entry.1).filterMap fun entry =>
    decodeNodeIdFromIndex entry.1

/-- One operation of a write batch. -/
def applyOp (backend : RocksDBBackend F) : WriteOp F → Except StorageError (RocksDBBackend F)
  | .putNode node => backend.putNode node
  | .deleteNode id => .ok (backend.deleteCf .nodes (Utf8.ofString id.asStr))
  | .putIndex cf key _ => .ok (backend.putCf cf key [])
  | .deleteIndex cf key _ => .ok (backend.deleteCf cf key)

/-- The nodes that decode, in the order of their keys. -/
def iterNodes (backend : RocksDBBackend F) : List (Node F) :=
  (backend.columns .nodes).toList.filterMap fun entry =>
    match backend.codec.deserializeNode entry.2 with
    | .ok node => some node
    | .error _ => none

/-- Run an update that may fail, in which case nothing is written. -/
def attempt (operation : RocksDBBackend F → Except StorageError (RocksDBBackend F)) :
    BackendM (RocksDBBackend F) Unit := fun backend =>
  match operation backend with
  | .ok after => .ok () after
  | .error error => .error error backend

instance : StorageBackend F (RocksDBBackend F) where
  getNode id := return (← get).getNode id
  putNode node := attempt (·.putNode node)
  deleteNode id := modify (·.deleteCf .nodes (Utf8.ofString id.asStr))
  scanIndex cf key := return (← get).scanIndex cf key
  putIndex cf key _ := modify (·.putCf cf key [])
  deleteIndex cf key _ := modify (·.deleteCf cf key)
  batchWrite ops := attempt fun backend => ops.foldlM applyOp backend
  len := return (((← get).columns .nodes).toList).length
  iterNodes := return (← get).iterNodes

end RocksDBBackend

end Factum
