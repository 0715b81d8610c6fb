/-
This file is about what the public read surface discloses of the nodes it hides.

Two stores may differ in every node that the public mask does not grant. Each call of
the read surface takes its nodes from an index scan or from the list of all nodes and
filters them before it counts, prints or matches anything, so two stores that agree in
the granted nodes and in their order serve it alike. One answer is computed before the
filter: the statistics report the number of all nodes. Served alike is therefore every
call but that one, and that one exactly when the two stores hold equally many nodes.
-/

import Factum.Handler
import Factum.Visibility
import Factum.Library.Simulation

namespace Factum

open Stateful Simulation

variable {D F : Type}

namespace FactumStore

/-- The granted nodes, in the order in which the store lists its nodes. -/
def grantedNodes (store : MemStore F) (mask : UInt32) : List (Node F) :=
  store.backend.nodes.values.filter (·.permissions.grants mask)

/-- Two stores that hold the same granted nodes and list them in the same order. -/
structure SameGranted (mask : UInt32) (left right : MemStore F) : Prop where
  reachableLeft : Reachable left
  reachableRight : Reachable right
  registry : left.registry = right.registry
  granted : ∀ id, left.grantedAt mask id = right.grantedAt mask id
  scans : ∀ cf key, SameOrder (left.grantedScan mask cf key) (right.grantedScan mask cf key)
  listing : SameOrder (left.grantedNodes mask) (right.grantedNodes mask)

/-! ### What is granted of a listing -/

theorem mem_grantedNodes_iff {store : MemStore F} (keyed : store.Keyed) (mask : UInt32)
    (node : Node F) :
    node ∈ store.grantedNodes mask ↔ store.grantedAt mask node.id = some node := by
  unfold grantedNodes grantedAt
  rw [List.mem_filter, Hash.Map.mem_values_iff, Option.filter_eq_some_iff]
  constructor
  · rintro ⟨⟨id, stored⟩, granted⟩
    obtain rfl : node.id = id := keyed id node stored
    exact ⟨stored, granted⟩
  · rintro ⟨stored, granted⟩
    exact ⟨⟨node.id, stored⟩, granted⟩

theorem nodup_grantedNodes {store : MemStore F} (keyed : store.Keyed) (mask : UInt32) :
    (store.grantedNodes mask).Nodup := by
  refine (Hash.Map.nodup_values _ fun key key' node stored stored' => ?_).filter _
  exact (keyed key node stored).symm.trans (keyed key' node stored')

/-- The active nodes of some identifiers that are granted. -/
theorem filter_active_granted (store : MemStore F) (mask : UInt32) (ids : List NodeId) :
    (ids.filterMap store.activeAt).filter (·.permissions.grants mask) =
      (ids.filter fun id => (store.grantedAt mask id).isSome).filterMap fun id =>
        (store.grantedAt mask id).filter (·.status == .active) := by
  rw [List.filter_filterMap, List.filterMap_filter]
  refine List.filterMap_congr fun id _ => ?_
  unfold activeAt grantedAt
  cases store.nodeAt id with
  | none => rfl
  | some node =>
    by_cases granted : node.permissions.grants mask = true <;>
      by_cases active : node.status = .active <;> simp [Option.filter, granted, active]

section Same

variable {mask : UInt32} {left right : MemStore F}

theorem SameGranted.grantedNodes_eq (same : SameGranted mask left right) :
    left.grantedNodes mask = right.grantedNodes mask := by
  have keyedLeft := same.reachableLeft.consistent.keyed
  have keyedRight := same.reachableRight.consistent.keyed
  refine same.listing ((List.perm_ext_iff_of_nodup (nodup_grantedNodes keyedLeft mask)
    (nodup_grantedNodes keyedRight mask)).mpr fun node => ?_)
  rw [mem_grantedNodes_iff keyedLeft, mem_grantedNodes_iff keyedRight, same.granted]

theorem SameGranted.grantedScan_eq (same : SameGranted mask left right) (cf : Cf)
    (key : List UInt8) : left.grantedScan mask cf key = right.grantedScan mask cf key :=
  same.scans cf key (grantedScan_perm same.reachableLeft.consistent
    same.reachableRight.consistent same.registry same.granted cf key)

theorem SameGranted.lookup_eq (same : SameGranted mask left right) (cf : Cf)
    (key : List UInt8) :
    ((left.scan cf key).filterMap left.activeAt).filter (·.permissions.grants mask) =
      ((right.scan cf key).filterMap right.activeAt).filter (·.permissions.grants mask) := by
  have view : left.grantedAt mask = right.grantedAt mask := funext same.granted
  have scans := same.grantedScan_eq cf key
  unfold grantedScan at scans
  rw [filter_active_granted, filter_active_granted, scans, view]

end Same

end FactumStore

namespace McpHandler

open FactumStore

/-- The mask of the public principal. -/
abbrev publicMask : UInt32 := PermissionContext.publicAccess.roleMask

/-- Whether a call is a search for statistics. -/
def ReadCall.AsksStats (out : Outside D F) (call : ReadCall D) : Prop :=
  ∃ args params, call = .search args ∧ out.searchParams args = .ok params ∧
    params.mode = "stats"

/-! ### The calls agree -/

/-- What a lookup keeps depends on the granted part of what it finds. -/
theorem filter_visible_congr {found found' : List (Node F)}
    (same : found.filter (·.permissions.grants publicMask) =
      found'.filter (·.permissions.grants publicMask)) (keep : Node F → Bool) :
    found.filter (fun node => keep node && checkPermission node .publicAccess) =
      found'.filter fun node => keep node && checkPermission node .publicAccess := by
  have visible : ∀ nodes : List (Node F),
      nodes.filter (fun node => keep node && checkPermission node .publicAccess) =
        (nodes.filter (·.permissions.grants publicMask)).filter keep :=
    fun nodes => List.filter_filter.symm
  rw [visible, visible, same]

/-- A read of a resource finds a node that is granted and active. -/
theorem readable_run (store : MemStore F) (id : NodeId) :
    readable id store =
      .ok ((store.grantedAt publicMask id).filter (·.status == .active)) store := by
  have got : getById id store = .ok (store.nodeAt id) store := getById_run store id
  unfold readable getWithPerm
  rw [bind_ok got]
  unfold grantedAt
  cases store.nodeAt id with
  | none => rfl
  | some node =>
    cases granted : node.permissions.grants publicMask with
    | false => simp [checkPermission, granted, Option.filter]
    | true => simp [checkPermission, granted, Option.filter]

section Agreement

variable [F32 F] {related : MemStore F → MemStore F → Prop}
  (alike : ∀ left right, related left right → SameGranted publicMask left right)
  (out : Outside D F) (preferredForm : PreferredForm) (req : JsonRpcRequest D)

include alike

theorem agree_query (pattern : Predicate) {options : QueryOptions F}
    (asPublic : options.perm = .publicAccess) :
    Agree related (query out.hasher out.host ⟨pattern, none⟩ options)
      (query out.hasher out.host ⟨pattern, none⟩ options) := by
  intro left right states
  have same := alike left right states
  have found := matches_eq_of_granted same.reachableLeft.consistent
    same.reachableRight.consistent same.registry ⟨pattern, none⟩ options
    (by rw [asPublic]; exact same.granted) (by rw [asPublic]; exact same.scans)
  rw [query_run (queryMatches_run left ⟨pattern, none⟩ options),
    query_run (queryMatches_run right ⟨pattern, none⟩ options), found]
  cases arbitrate out.hasher out.host (((right.candidateScan ⟨pattern, none⟩).filterMap
      right.activeAt).filterMap (matchOf ⟨pattern, none⟩ options)) options.policy
      (some pattern) with
  | some answered => exact ⟨rfl, states⟩
  | none => exact ⟨rfl, states⟩

theorem agree_toolQuery (args : Json D) :
    Agree related (toolQuery out preferredForm req args)
      (toolQuery out preferredForm req args) := by
  unfold toolQuery
  cases out.queryParams args with
  | error message => exact .pure _
  | ok params =>
    dsimp only
    cases Parser.parsePredicate out.host params.query with
    | error stop =>
      cases stop with
      | fail error => exact .pure _
      | panic => exact .throw _
      | fuel => exact .throw _
    | ok pattern =>
      refine (agree_query alike out pattern rfl).bind fun found => ?_
      refine .get_bind fun left right states => ?_
      rw [(alike left right states).registry]
      exact .pure _

theorem agree_toolLookup (args : Json D) :
    Agree related (toolLookup out preferredForm req args)
      (toolLookup out preferredForm req args) := by
  unfold toolLookup
  cases out.lookupParams args with
  | error message => exact .pure _
  | ok params =>
    dsimp only
    refine .bind_reads (fun found found' =>
      found.filter (·.permissions.grants publicMask) =
        found'.filter (·.permissions.grants publicMask)) ?_ ?_
    · intro left right states
      have same := alike left right states
      exact ⟨_, _, lookupIndex_run left .byEntity _, lookupIndex_run right .byEntity _,
        same.lookup_eq .byEntity _⟩
    · intro found found' same
      refine .get_bind fun left right states => ?_
      rw [(alike left right states).registry]
      cases params.minConfidence with
      | none =>
        dsimp only
        rw [filter_visible_congr same]
        exact .pure _
      | some minConf =>
        have confident : ∀ nodes : List (Node F),
            (nodes.filter fun node => F32.le minConf node.confidence.value).filter
                (·.permissions.grants publicMask) =
              (nodes.filter (·.permissions.grants publicMask)).filter
                fun node => F32.le minConf node.confidence.value :=
          fun nodes => List.filter_comm _ _ _
        have still := (confident found).trans
          ((congrArg (List.filter _) same).trans (confident found').symm)
        dsimp only
        rw [filter_visible_congr still]
        exact .pure _

omit [F32 F] in
/-- The active nodes that a search or a listing starts from. -/
theorem reads_allActive (left right : MemStore F) (states : related left right) :
    ∃ nodes nodes' : List (Node F), allActive left = .ok nodes left ∧
      allActive right = .ok nodes' right ∧
      nodes.filter (checkPermission · .publicAccess) =
        nodes'.filter (checkPermission · .publicAccess) := by
  have active : ∀ store : MemStore F,
      (store.backend.nodes.values.filter (·.status == .active)).filter
          (checkPermission · .publicAccess) =
        (store.grantedNodes publicMask).filter (·.status == .active) :=
    fun store => List.filter_comm _ _ _
  refine ⟨_, _, rfl, rfl, ?_⟩
  rw [active, active, (alike left right states).grantedNodes_eq]

omit [F32 F] in
theorem agree_toolSearch (args : Json D)
    (counts : ReadCall.AsksStats out (.search args) → ∀ left right, related left right →
      left.backend.nodes.size = right.backend.nodes.size) :
    Agree related (toolSearch out req args) (toolSearch out req args) := by
  unfold toolSearch
  cases decoded : out.searchParams args with
  | error message => exact .pure _
  | ok params =>
    dsimp only
    refine .bind_reads _ (reads_allActive alike) fun nodes nodes' same => ?_
    rw [same]
    split
    · cases params.keyword with
      | none => exact .pure _
      | some keyword =>
        dsimp only
        refine .ite (fun _ => ?_) fun _ => ?_
        · exact .pure _
        · exact .pure _
    · exact .pure _
    · rename_i isStats
      refine .bind_reads Eq ?_ fun total total' sameTotal => ?_
      · exact fun left right states => ⟨_, _, len_run left, len_run right,
          counts ⟨args, params, rfl, decoded, isStats⟩ left right states⟩
      · rw [sameTotal]
        refine .ite (fun _ => ?_) fun _ => ?_
        · exact .throw _
        · exact .pure _
    · exact .pure _

omit [F32 F] in
theorem agree_handleListResources :
    Agree related (handleListResources (F := F) req) (handleListResources req) := by
  unfold handleListResources
  refine .bind_reads _ (reads_allActive alike) fun nodes nodes' same => ?_
  rw [same]
  exact .pure _

omit [F32 F] in
theorem agree_handleReadResource :
    Agree related (handleReadResource out req) (handleReadResource out req) := by
  unfold handleReadResource
  cases req.params with
  | none => exact .pure _
  | some params =>
    dsimp only
    cases parseNodeResourceUri (((params.get? "uri").bind Json.asStr?).getD "") with
    | none => exact .pure _
    | some id =>
      dsimp only
      refine .bind (fun left right states => ?_) fun found => ?_
      · rw [readable_run, readable_run, (alike left right states).granted]
        exact ⟨rfl, states⟩
      · cases found with
        | none => exact .pure _
        | some node => exact .pure _

/-- Every call agrees from related stores, one that asks for statistics when related stores
hold equally many nodes. -/
theorem agree_serve (call : ReadCall D)
    (counts : call.AsksStats out → ∀ left right, related left right →
      left.backend.nodes.size = right.backend.nodes.size) :
    Agree related (serve out preferredForm req call) (serve out preferredForm req call) := by
  cases call with
  | query args => exact agree_toolQuery alike out preferredForm req args
  | lookup args => exact agree_toolLookup alike out preferredForm req args
  | search args => exact agree_toolSearch alike out req args counts
  | listResources => exact agree_handleListResources alike req
  | readResource => exact agree_handleReadResource alike out req

end Agreement

/-! ### The statistics -/

section Statistics

variable (out : Outside D F) (req : JsonRpcRequest D)

/-- No more nodes are active and granted than there are nodes. -/
theorem length_visible_le (store : MemStore F) :
    ((store.backend.nodes.values.filter (·.status == .active)).filter
      (checkPermission · .publicAccess)).length ≤ store.backend.nodes.size :=
  calc
    _ ≤ (store.backend.nodes.values.filter (·.status == .active)).length :=
      List.length_filter_le _ _
    _ ≤ store.backend.nodes.values.length := List.length_filter_le _ _
    _ ≤ store.backend.nodes.keys.length := List.length_filterMap_le _ _
    _ = store.backend.nodes.size := store.backend.nodes.length_keys

/-- The statistics report the number of all nodes. -/
theorem answer_stats {args : Json D} {params : FactumSearchParams}
    (decoded : out.searchParams args = .ok params) (isStats : params.mode = "stats")
    (store : MemStore F) :
    ∃ activeNodes : List (Node F), answer (toolSearch out req args) store =
      .ok (replyWith out req (statsJson store.backend.nodes.size activeNodes)) := by
  have listed : allActive store =
      .ok (store.backend.nodes.values.filter (·.status == .active)) store := rfl
  have ran : toolSearch out req args store = .ok (replyWith out req
      (statsJson store.backend.nodes.size ((store.backend.nodes.values.filter
        (·.status == .active)).filter (checkPermission · .publicAccess)))) store := by
    obtain ⟨mode, keyword, limit⟩ := params
    obtain rfl : mode = "stats" := isStats
    unfold toolSearch
    rw [decoded]
    dsimp only
    rw [bind_ok listed]
    refine (bind_ok (len_run store)).trans ?_
    rw [ite_run, if_neg (Nat.not_lt.mpr (length_visible_le store))]
    rfl
  exact ⟨_, by rw [answer_ok ran]⟩

/-- The number of all nodes can be read off the reply. -/
theorem total_eq_of_reply_eq {total total' : Nat} {activeNodes activeNodes' : List (Node F)}
    (same : replyWith out req (statsJson total activeNodes) =
      replyWith out req (statsJson total' activeNodes')) : total = total' := by
  have results : structuredResult out.doubleText (statsJson total activeNodes) =
      structuredResult out.doubleText (statsJson total' activeNodes') :=
    Option.some.inj (congrArg JsonRpcResponse.result same)
  have contents : (statsJson total activeNodes : Json D) = statsJson total' activeNodes' :=
    Json.eq_of_object_eq results (by simp) "structuredContent" (by simp) (by simp)
  have totals : (Json.int total : Json D) = .int total' :=
    Json.eq_of_object_eq contents (by simp) "total_nodes" (by simp) (by simp)
  exact Int.ofNat.inj (Json.int.inj totals)

end Statistics

/-- Two stores that hold the same public nodes, in the same order, serve a call alike exactly
when it does not ask for statistics or the stores hold equally many nodes. -/
theorem serve_alike_iff [F32 F] {left right : MemStore F}
    (same : SameGranted publicMask left right) (out : Outside D F)
    (preferredForm : PreferredForm) (req : JsonRpcRequest D) (call : ReadCall D) :
    answer (serve out preferredForm req call) left =
        answer (serve out preferredForm req call) right ↔
      (call.AsksStats out → left.backend.nodes.size = right.backend.nodes.size) := by
  constructor
  · rintro answers ⟨args, params, rfl, decoded, isStats⟩
    obtain ⟨activeLeft, fromLeft⟩ := answer_stats out req decoded isStats left
    obtain ⟨activeRight, fromRight⟩ := answer_stats out req decoded isStats right
    have replies : replyWith out req (statsJson left.backend.nodes.size activeLeft) =
        replyWith out req (statsJson right.backend.nodes.size activeRight) :=
      Except.ok.inj (fromLeft.symm.trans (answers.trans fromRight))
    exact total_eq_of_reply_eq out req replies
  · intro counts
    have agree : Agree (fun left right => SameGranted publicMask left right ∧
          (call.AsksStats out → left.backend.nodes.size = right.backend.nodes.size))
        (serve out preferredForm req call) (serve out preferredForm req call) :=
      agree_serve (fun _ _ states => states.1) out preferredForm req call
        fun asks _ _ states => states.2 asks
    exact agree.answer ⟨same, counts⟩

/-! ### A store that counts a hidden node -/

/-- Libraries for calls that print no number and read no text but the mode of a search. -/
def sampleOutside : Outside Unit Rat where
  host := default
  hasher := .asStored _
  now := ⟨0, 0, DateTime.zero_inRange⟩
  toLowercase := String.toLower
  scoreText := fun _ => "0.0"
  doubleText := fun _ => "0.0"
  intAsScore := fun n => n
  doubleAsScore := fun _ => 0
  queryParams := fun _ => .error "missing field `query`"
  lookupParams := fun _ => .error "missing field `entity`"
  searchParams := fun args =>
    match (args.get? "mode").bind Json.asStr? with
    | some mode => .ok ⟨mode, none, none⟩
    | none => .error "missing field `mode`"

/-- A request with the number 1. -/
def firstRequest : JsonRpcRequest Unit := ⟨.int 1, none⟩

/-- A search for statistics. -/
def statsCall : ReadCall Unit := .search (.obj [("mode", .str "stats")])

theorem sameGranted_guardedStore : SameGranted publicMask openStore guardedStore where
  reachableLeft := (Reachable.empty _ _ _).run _
  reachableRight := (Reachable.empty _ _ _).run _
  registry := by rfl
  granted := by
    intro id
    show openStore.grantedAt 1 id = guardedStore.grantedAt 1 id
    rw [grantedAt_openStore, grantedAt_guardedStore]
  scans := grantedScan_sameOrder
  listing := by
    intro _
    decide +kernel

/-- The statistics tell the two stores apart, although their public nodes are the same. -/
theorem stats_disclose_secret :
    ∃ left right : MemStore Rat, SameGranted publicMask left right ∧
      answer (serve sampleOutside .canonical firstRequest statsCall) left ≠
        answer (serve sampleOutside .canonical firstRequest statsCall) right := by
  refine ⟨openStore, guardedStore, sameGranted_guardedStore, fun answers => ?_⟩
  have decoded : sampleOutside.searchParams (.obj [("mode", .str "stats")]) =
      .ok ⟨"stats", none, none⟩ := rfl
  obtain ⟨activeOpen, fromOpen⟩ := answer_stats sampleOutside firstRequest decoded rfl openStore
  obtain ⟨activeGuarded, fromGuarded⟩ :=
    answer_stats sampleOutside firstRequest decoded rfl guardedStore
  have totals : openStore.backend.nodes.size = guardedStore.backend.nodes.size :=
    total_eq_of_reply_eq sampleOutside firstRequest
      (Except.ok.inj (fromOpen.symm.trans (answers.trans fromGuarded)))
  have differ : openStore.backend.nodes.size ≠ guardedStore.backend.nodes.size := by
    decide +kernel
  exact differ totals

/-- The list of resources is the same whether or not the restricted fact is stored. -/
theorem serve_alike_iff_secret :
    answer (serve sampleOutside .canonical firstRequest .listResources) openStore =
      answer (serve sampleOutside .canonical firstRequest .listResources) guardedStore := by
  refine (serve_alike_iff sameGranted_guardedStore sampleOutside .canonical firstRequest
    .listResources).mpr ?_
  rintro ⟨_, _, isSearch, _⟩
  cases isSearch

end McpHandler

end Factum
