/-
This file is about the resources of the server.

A resource is a stored node that is active and granted to the public, under the URI of its
identifier. The list of resources and the reads of resources are answered by two walks over
the store, one over all nodes and one by the identifier. They agree: the list holds each URI
that can be read, once and in order, and no other, and a read answers the canonical text of
the node behind the URI.
-/

import Factum.Disclosure

namespace Factum

open Stateful

variable {D F : Type}

/-- The items of a list in a result. -/
def JsonRpcResponse.items (response : JsonRpcResponse D) (key : String) : List (Json D) :=
  match response.result.bind (·.get? key) with
  | some (.arr items) => items
  | _ => []

/-- The URIs of the resources in a list of them. -/
def JsonRpcResponse.uris (response : JsonRpcResponse D) : List String :=
  (response.items "resources").filterMap fun resource => (resource.get? "uri").bind Json.asStr?

/-- The texts of the contents of a resource. -/
def JsonRpcResponse.texts (response : JsonRpcResponse D) : List String :=
  (response.items "contents").filterMap fun content => (content.get? "text").bind Json.asStr?

/-- The URI that a read asks for. -/
def JsonRpcRequest.uri (req : JsonRpcRequest D) : String :=
  ((req.params.bind (·.get? "uri")).bind Json.asStr?).getD ""

/-! ### URIs -/

theorem parseNodeResourceUri_eq_some (uri id : String) :
    parseNodeResourceUri uri = some id ↔ uri = nodeResourceUri id := by
  unfold parseNodeResourceUri stripPrefix? nodeResourceUri
  constructor
  · intro parsed
    split_ifs at parsed with starts
    obtain ⟨rest, whole⟩ := List.isPrefixOf_iff_prefix.mp starts
    rw [← whole, List.drop_left] at parsed
    rw [← Option.some.inj parsed, ← String.toList_inj, String.toList_append, String.toList_ofList]
    exact whole.symm
  · rintro rfl
    rw [String.toList_append, if_pos (List.isPrefixOf_iff_prefix.mpr (List.prefix_append _ _)),
      List.drop_left, String.ofList_toList]

theorem nodeResourceUri_injective {id id' : String}
    (same : nodeResourceUri id = nodeResourceUri id') : id = id' := by
  have parsed := (parseNodeResourceUri_eq_some _ id).mpr rfl
  rw [same, (parseNodeResourceUri_eq_some _ id').mpr rfl] at parsed
  exact (Option.some.inj parsed).symm

theorem nodeResourceUri_lt {id id' : String} (less : id < id') :
    nodeResourceUri id < nodeResourceUri id' := by
  rw [String.lt_iff_toList_lt] at less ⊢
  rw [nodeResourceUri, nodeResourceUri, String.toList_append, String.toList_append]
  exact List.append_left_lt less

namespace FactumStore

open McpHandler

/-- The node behind a URI: active, and granted to the public. -/
def resourceAt (store : MemStore F) (uri : String) : Option (Node F) :=
  (parseNodeResourceUri uri).bind fun id =>
    (store.grantedAt publicMask ⟨id⟩).filter (·.status == .active)

theorem resourceAt_eq_some {store : MemStore F} {uri : String} {node : Node F} :
    store.resourceAt uri = some node ↔ ∃ id, uri = nodeResourceUri id ∧
      store.grantedAt publicMask ⟨id⟩ = some node ∧ node.status = .active := by
  unfold resourceAt
  rw [Option.bind_eq_some_iff]
  refine exists_congr fun id => ?_
  rw [parseNodeResourceUri_eq_some, Option.filter_eq_some_iff, beq_iff_eq]

end FactumStore

namespace McpHandler

open FactumStore

/-- The nodes that are resources, in the order of their identifiers. -/
def resourceNodes (store : MemStore F) : List (Node F) :=
  ((store.grantedNodes publicMask).filter (·.status == .active)).mergeSort
    fun a b => decide (a.id.asStr ≤ b.id.asStr)

theorem mem_resourceNodes_iff {store : MemStore F} (keyed : store.Keyed) (node : Node F) :
    node ∈ resourceNodes store ↔
      store.grantedAt publicMask node.id = some node ∧ node.status = .active := by
  rw [resourceNodes, List.mem_mergeSort, List.mem_filter, mem_grantedNodes_iff keyed, beq_iff_eq]

/-- The nodes are listed strictly in the order of their identifiers. -/
theorem pairwise_resourceNodes {store : MemStore F} (keyed : store.Keyed) :
    (resourceNodes store).Pairwise fun a b => a.id.asStr < b.id.asStr := by
  have sorted : (resourceNodes store).Pairwise
      fun a b => decide (a.id.asStr ≤ b.id.asStr) = true := by
    refine List.pairwise_mergeSort (fun a b c first second => ?_) (fun a b => ?_) _
    · exact decide_eq_true ((of_decide_eq_true first).trans (of_decide_eq_true second))
    · rw [← Bool.decide_or, decide_eq_true_eq]
      exact le_total _ _
  have distinct : (resourceNodes store).Nodup :=
    (List.mergeSort_perm _ _).nodup_iff.mpr ((nodup_grantedNodes keyed publicMask).filter _)
  refine (sorted.and distinct).imp_of_mem fun {a b} inA inB both => ?_
  refine lt_of_le_of_ne (of_decide_eq_true both.1) fun sameText => both.2 ?_
  have storedA := ((mem_resourceNodes_iff keyed a).mp inA).1
  have storedB := ((mem_resourceNodes_iff keyed b).mp inB).1
  have sameId : a.id = b.id := congrArg NodeId.mk sameText
  rw [sameId, storedB] at storedA
  exact (Option.some.inj storedA).symm

section Replies

variable (out : Outside D F) (req : JsonRpcRequest D)

/-- The reply with the list of resources. -/
def listingReply (store : MemStore F) : JsonRpcResponse D :=
  .success req.id (.object [("resources", .arr ((resourceNodes store).map fun node =>
    .object [
      ("uri", .str (nodeResourceUri node.id.asStr)),
      ("name", .str node.id.asStr),
      ("mimeType", .str "text/plain")]))])

theorem handleListResources_run (store : MemStore F) :
    handleListResources req store = .ok (listingReply req store) store := by
  have visible : (store.backend.nodes.values.filter fun node => node.status == .active).filter
      (checkPermission · .publicAccess) =
        (store.grantedNodes publicMask).filter (·.status == .active) := by
    rw [grantedNodes, List.filter_filter, List.filter_filter]
    exact List.filter_congr fun node _ => Bool.and_comm _ _
  show EStateM.Result.ok (JsonRpcResponse.success req.id _) store = _
  rw [visible]
  rfl

theorem uris_listingReply (store : MemStore F) :
    (listingReply req store).uris =
      (resourceNodes store).map fun node => nodeResourceUri node.id.asStr := by
  have items : (listingReply req store).items "resources" = (resourceNodes store).map fun node =>
      .object [
        ("uri", .str (nodeResourceUri node.id.asStr)),
        ("name", .str node.id.asStr),
        ("mimeType", .str "text/plain")] := rfl
  rw [JsonRpcResponse.uris, items, List.filterMap_map, ← List.filterMap_eq_map]
  refine List.filterMap_congr fun node _ => ?_
  rw [Function.comp_apply, Json.get?_object (by simp) List.mem_cons_self]
  rfl

/-- The reply with the text of a node. -/
def readingReply (node : Node F) : JsonRpcResponse D :=
  .success req.id (.object [("contents", .arr [.object [
    ("uri", .str req.uri),
    ("mimeType", .str "text/plain"),
    ("text", .str (canonical out.host node))]])])

theorem texts_readingReply (node : Node F) :
    (readingReply out req node).texts = [canonical out.host node] := by
  have items : (readingReply out req node).items "contents" = [.object [
      ("uri", .str req.uri),
      ("mimeType", .str "text/plain"),
      ("text", .str (canonical out.host node))]] := rfl
  have text : (Json.object [
      ("uri", .str req.uri),
      ("mimeType", .str "text/plain"),
      ("text", .str (canonical out.host node))] : Json D).get? "text" =
        some (.str (canonical out.host node)) := Json.get?_object (by simp) (by simp)
  simp only [JsonRpcResponse.texts, items, List.filterMap_cons, text]
  rfl

/-- A read answers the text of the node behind the URI, and is refused if there is none. -/
theorem handleReadResource_run (store : MemStore F) :
    ∃ reply, handleReadResource out req store = .ok reply store ∧
      reply.texts = ((store.resourceAt req.uri).map (canonical out.host)).toList ∧
      reply.error.isSome = (store.resourceAt req.uri).isNone := by
  unfold handleReadResource
  cases hasParams : req.params with
  | none =>
    have isUri : req.uri = "" := by
      rw [JsonRpcRequest.uri, hasParams]
      rfl
    have nothing : store.resourceAt req.uri = none := by
      rw [isUri, resourceAt, show parseNodeResourceUri "" = none by decide]
      rfl
    rw [nothing]
    exact ⟨_, rfl, rfl, rfl⟩
  | some params =>
    have isUri : req.uri = ((params.get? "uri").bind Json.asStr?).getD "" := by
      rw [JsonRpcRequest.uri, hasParams]
      rfl
    dsimp only
    rw [← isUri]
    cases parsed : parseNodeResourceUri req.uri with
    | none =>
      have nothing : store.resourceAt req.uri = none := by
        rw [resourceAt, parsed]
        rfl
      rw [nothing]
      exact ⟨_, rfl, rfl, rfl⟩
    | some id =>
      have found : store.resourceAt req.uri =
          (store.grantedAt publicMask ⟨id⟩).filter (·.status == .active) := by
        rw [resourceAt, parsed]
        rfl
      dsimp only
      rw [bind_ok (readable_run store ⟨id⟩), found]
      cases (store.grantedAt publicMask ⟨id⟩).filter (·.status == .active) with
      | none => exact ⟨_, rfl, rfl, rfl⟩
      | some node => exact ⟨_, rfl, texts_readingReply out req node, rfl⟩

/-- In every reachable store the list of resources holds the URIs that can be read, once and in
order, and no others, and a read answers the canonical text of the node behind the URI. -/
theorem resources_agree [F32 F] (preferredForm : PreferredForm) {store : MemStore F}
    (reachable : Reachable store) :
    ∃ listing, serve out preferredForm req .listResources store = .ok listing store ∧
      listing.uris.Pairwise (· < ·) ∧
      (∀ uri, uri ∈ listing.uris ↔ (store.resourceAt uri).isSome = true) ∧
      ∀ reading : JsonRpcRequest D, ∃ reply,
        serve out preferredForm reading .readResource store = .ok reply store ∧
          reply.texts = ((store.resourceAt reading.uri).map (canonical out.host)).toList ∧
          reply.error.isSome = (store.resourceAt reading.uri).isNone := by
  have keyed := reachable.consistent.keyed
  refine ⟨listingReply req store, handleListResources_run req store, ?_, fun uri => ?_,
    fun reading => handleReadResource_run out reading store⟩
  · rw [uris_listingReply, List.pairwise_map]
    exact (pairwise_resourceNodes keyed).imp nodeResourceUri_lt
  · rw [uris_listingReply, List.mem_map, Option.isSome_iff_exists]
    simp only [mem_resourceNodes_iff keyed, resourceAt_eq_some]
    constructor
    · rintro ⟨node, ⟨granted, active⟩, rfl⟩
      exact ⟨node, node.id.asStr, rfl, granted, active⟩
    · rintro ⟨node, id, rfl, granted, active⟩
      have isId : node.id = ⟨id⟩ :=
        keyed _ node (Option.filter_eq_some_iff.mp granted).1
      exact ⟨node, ⟨by rw [isId]; exact granted, active⟩, by rw [isId]⟩

end Replies

/-- A store with a secret and a public fact. -/
theorem resources_agree_guardedStore :
    ∃ listing, serve sampleOutside .canonical firstRequest .listResources guardedStore =
        .ok listing guardedStore ∧
      listing.uris.Pairwise (· < ·) ∧
      (∀ uri, uri ∈ listing.uris ↔ (guardedStore.resourceAt uri).isSome = true) ∧
      ∀ reading : JsonRpcRequest Unit, ∃ reply,
        serve sampleOutside .canonical reading .readResource guardedStore = .ok reply guardedStore ∧
          reply.texts =
            ((guardedStore.resourceAt reading.uri).map (canonical sampleOutside.host)).toList ∧
          reply.error.isSome = (guardedStore.resourceAt reading.uri).isNone :=
  resources_agree sampleOutside firstRequest .canonical sameGranted_guardedStore.reachableRight

end McpHandler

end Factum
