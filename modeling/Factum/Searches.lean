/-
This file is about what the search tool finds.

A search walks over the nodes that are active and granted to the public. For a keyword it
stops at the limit, so that it lists as many of the nodes that mention the keyword as the
limit allows, and all of them when it lists fewer. For the heads it counts in a sorted map,
which ends up with every head that some node has, and the number of its nodes.
-/

import Factum.HandlerRuns
import Factum.Resources

namespace Factum

open Stateful

variable {D F : Type}

/-! ### What a reply holds -/

/-- A field of the content of a tool result. -/
def JsonRpcResponse.field (response : JsonRpcResponse D) (key : String) : Option (Json D) :=
  (response.result.bind (·.get? "structuredContent")).bind (·.get? key)

/-- The items of a list in the content of a tool result. -/
def JsonRpcResponse.listed (response : JsonRpcResponse D) (key : String) : List (Json D) :=
  match response.field key with
  | some (.arr items) => items
  | _ => []

/-- The identifiers of the nodes that a search found. -/
def JsonRpcResponse.foundIds (response : JsonRpcResponse D) : List String :=
  (response.listed "results").filterMap fun found => (found.get? "node_id").bind Json.asStr?

/-- A head with its count. -/
def headCount (entry : Json D) : Option (String × Int) :=
  match entry.get? "predicate", entry.get? "count" with
  | some (.str head), some (.int count) => some (head, count)
  | _, _ => none

/-- The heads that a search counted, with their counts. -/
def JsonRpcResponse.headCounts (response : JsonRpcResponse D) : List (String × Int) :=
  (response.listed "predicates").filterMap headCount

namespace McpHandler

open FactumStore

/-! ### Keywords -/

section Keywords

variable (out : Outside D F)

/-- The names of the entities that are arguments of a node. -/
def entityTexts (node : Node F) : List String :=
  node.predicate.args.filterMap fun arg => match arg with
    | .ent entity => some entity.asStr
    | _ => none

/-- The texts of a node that a keyword is looked for in. -/
def searchTexts (node : Node F) : List String :=
  [node.id.asStr, predicateHeadStr node.predicate.head] ++ entityTexts node ++
    [canonical out.host node] ++ node.note.toList

/-- Whether a node mentions a keyword, in whatever case. -/
def Mentions (keyword : String) (node : Node F) : Prop :=
  ∃ text ∈ searchTexts out node,
    containsText (out.toLowercase text) (out.toLowercase keyword) = true

theorem ne_nil_ite {α : Type} (condition : Prop) [Decidable condition] (item : α) :
    ((if condition then [item] else []) : List α) ≠ [] ↔ condition := by
  split_ifs with holds
  · exact iff_of_true (List.cons_ne_nil _ _) holds
  · exact iff_of_false (fun differ => differ rfl) holds

theorem matchTypes_eq (kwLower : String) (node : Node F) :
    let occursIn := fun text => containsText (out.toLowercase text) kwLower
    matchTypes out kwLower node =
      (if occursIn node.id.asStr then ["node-id"] else []) ++
        (if occursIn (predicateHeadStr node.predicate.head) then ["predicate-head"] else []) ++
        (if (entityTexts node).any occursIn then ["entity"] else []) ++
        (if occursIn (canonical out.host node) then ["content"] else []) ++
        (if node.note.any occursIn then ["note"] else []) := by
  unfold matchTypes
  cases node.note <;> rfl

/-- A node has a match exactly if it mentions the keyword. -/
theorem matchTypes_isEmpty_iff (keyword : String) (node : Node F) :
    (matchTypes out (out.toLowercase keyword) node).isEmpty = false ↔
      Mentions out keyword node := by
  have note : node.note.any (fun text => containsText (out.toLowercase text)
      (out.toLowercase keyword)) = true ↔ ∃ text ∈ node.note.toList,
        containsText (out.toLowercase text) (out.toLowercase keyword) = true := by
    cases node.note <;> simp
  rw [List.isEmpty_eq_false_iff, matchTypes_eq, Mentions, searchTexts]
  simp only [ne_eq, List.append_eq_nil_iff, not_and_or]
  simp only [← ne_eq, ne_nil_ite, List.any_eq_true, note, List.mem_append, List.mem_cons,
    List.not_mem_nil, or_false, or_and_right, exists_or, exists_eq_left, or_assoc]

/-- The loop finds the first nodes that have a match, up to the limit. -/
theorem searchLoop_eq (kwLower : String) (limit : Nat) (nodes : List (Node F)) :
    ∀ found : List (Json D), found.length ≤ limit →
      searchLoop out kwLower limit nodes found = found ++
        ((nodes.filter fun node => !(matchTypes out kwLower node).isEmpty).take
          (limit - found.length)).map fun node =>
            matchJson out node (matchTypes out kwLower node) := by
  induction nodes with
  | nil =>
    intro found few
    simp [searchLoop]
  | cons node rest inductionHypothesis =>
    intro found few
    rw [searchLoop]
    by_cases full : limit ≤ found.length
    · rw [if_pos full, Nat.sub_eq_zero_of_le full, List.take_zero, List.map_nil, List.append_nil]
    · rw [if_neg full]
      dsimp only
      by_cases isMatch : (matchTypes out kwLower node).isEmpty = true
      · rw [if_pos isMatch, inductionHypothesis found few,
          List.filter_cons_of_neg (by simpa using isMatch)]
      · have short : (found ++ [matchJson out node (matchTypes out kwLower node)]).length ≤
            limit := by
          rw [List.length_append, List.length_singleton]
          omega
        have more : limit - found.length = limit - (found.length + 1) + 1 := by omega
        rw [if_neg isMatch, inductionHypothesis _ short, List.length_append,
          List.length_singleton, List.filter_cons_of_pos (by simpa using isMatch), more,
          List.take_succ_cons, List.map_cons, List.append_assoc, List.singleton_append]

end Keywords

/-! ### Heads -/

/-- Count the head of one more node. -/
def countHead (counts : Std.TreeMap String Nat) (node : Node F) : Std.TreeMap String Nat :=
  let head := predicateHeadStr node.predicate.head
  counts.insert head ((counts[head]?).getD 0 + 1)

/-- How often a head was counted. -/
def countOf (counts : Std.TreeMap String Nat) (head : String) : Nat := (counts[head]?).getD 0

theorem countOf_countHead (counts : Std.TreeMap String Nat) (node : Node F) (head : String) :
    countOf (countHead counts node) head = countOf counts head +
      if predicateHeadStr node.predicate.head == head then 1 else 0 := by
  unfold countOf countHead
  rw [Std.TreeMap.getElem?_insert]
  by_cases same : predicateHeadStr node.predicate.head = head
  · rw [same, if_pos Std.ReflCmp.compare_self, Option.getD_some, if_pos (beq_self_eq_true head)]
  · rw [if_neg (mt Std.LawfulEqCmp.eq_of_compare same), if_neg (by simpa using same),
      Nat.add_zero]

/-- The count of a head is the number of the nodes that have it. -/
theorem countOf_predCounts (nodes : List (Node F)) (head : String) :
    countOf (predCounts nodes) head =
      nodes.countP fun node => predicateHeadStr node.predicate.head == head := by
  have counted : ∀ counts : Std.TreeMap String Nat, countOf (nodes.foldl countHead counts) head =
      countOf counts head +
        nodes.countP fun node => predicateHeadStr node.predicate.head == head := by
    induction nodes with
    | nil => exact fun counts => rfl
    | cons node rest inductionHypothesis =>
      intro counts
      rw [List.foldl_cons, inductionHypothesis, countOf_countHead, List.countP_cons]
      omega
  have none : countOf ∅ head = 0 := by
    rw [countOf, Std.TreeMap.getElem?_emptyc]
    rfl
  have all := counted ∅
  rw [none, Nat.zero_add] at all
  exact all

/-- Only heads of nodes are counted. -/
theorem predCounts_pos (nodes : List (Node F)) : ∀ (head : String) (count : Nat),
    (predCounts nodes)[head]? = some count → 0 < count := by
  have counted : ∀ counts : Std.TreeMap String Nat,
      (∀ (other : String) (n : Nat), counts[other]? = some n → 0 < n) →
        ∀ (other : String) (n : Nat), (nodes.foldl countHead counts)[other]? = some n → 0 < n := by
    induction nodes with
    | nil => exact fun counts positive => positive
    | cons node rest inductionHypothesis =>
      intro counts positive
      rw [List.foldl_cons]
      refine inductionHypothesis _ fun other n found => ?_
      rw [countHead, Std.TreeMap.getElem?_insert] at found
      split_ifs at found with same
      · rw [← Option.some.inj found]
        exact Nat.succ_pos _
      · exact positive other n found
  refine counted ∅ fun other n found => ?_
  rw [Std.TreeMap.getElem?_emptyc] at found
  cases found

/-- The counts are positive, and each is the number of nodes with its head. -/
theorem mem_predCounts_iff (nodes : List (Node F)) (head : String) (count : Nat) :
    (head, count) ∈ (predCounts nodes).toList ↔ 0 < count ∧
      count = nodes.countP fun node => predicateHeadStr node.predicate.head == head := by
  rw [Std.TreeMap.mem_toList_iff_getElem?_eq_some, ← countOf_predCounts]
  constructor
  · intro isCount
    refine ⟨predCounts_pos nodes head count isCount, ?_⟩
    rw [countOf, isCount]
    rfl
  · rintro ⟨some_, rfl⟩
    unfold countOf at some_ ⊢
    cases found : (predCounts nodes)[head]? with
    | none =>
      rw [found] at some_
      exact absurd some_ (Nat.lt_irrefl 0)
    | some n => rfl

/-- The heads are listed in order. -/
theorem pairwise_predCounts (nodes : List (Node F)) :
    (predCounts nodes).toList.Pairwise fun a b => a.1 < b.1 := by
  have ordered : (predCounts nodes).toList.Pairwise fun a b => compare a.1 b.1 = .lt :=
    Std.TreeMap.ordered_keys_toList
  exact ordered.imp fun less => compare_lt_iff_lt.mp less

/-! ### The nodes that a search sees -/

/-- The node with an identifier: active, and granted to the public. -/
def publicAt (store : MemStore F) (id : String) : Option (Node F) :=
  (store.grantedAt publicMask ⟨id⟩).filter (·.status == .active)

/-- The nodes that a search walks over. -/
def searched (store : MemStore F) : List (Node F) :=
  (store.backend.nodes.values.filter (·.status == .active)).filter
    (checkPermission · .publicAccess)

section Searched

variable {store : MemStore F}

theorem publicAt_eq_some {id : String} {node : Node F} :
    publicAt store id = some node ↔
      store.grantedAt publicMask ⟨id⟩ = some node ∧ node.status = .active := by
  rw [publicAt, Option.filter_eq_some_iff, beq_iff_eq]

theorem searched_eq :
    searched store = (store.grantedNodes publicMask).filter (·.status == .active) := by
  rw [searched, grantedNodes, List.filter_filter, List.filter_filter]
  exact List.filter_congr fun node _ => Bool.and_comm _ _

theorem mem_searched_iff (keyed : store.Keyed) (node : Node F) :
    node ∈ searched store ↔ publicAt store node.id.asStr = some node := by
  rw [searched_eq, List.mem_filter, mem_grantedNodes_iff keyed, beq_iff_eq, publicAt_eq_some]

/-- The nodes have different identifiers. -/
theorem nodup_searched (keyed : store.Keyed) :
    ((searched store).map fun node => node.id.asStr).Nodup := by
  have distinct : (searched store).Nodup := by
    rw [searched_eq]
    exact (nodup_grantedNodes keyed publicMask).filter _
  refine distinct.map_on fun node isNode other isOther same => ?_
  rw [mem_searched_iff keyed] at isNode isOther
  rw [same, isOther] at isNode
  exact (Option.some.inj isNode).symm

/-- An identifier is that of a public node exactly if the node is walked over. -/
theorem mem_map_searched_iff (keyed : store.Keyed) (keeps : Node F → Bool) (id : String) :
    id ∈ ((searched store).filter keeps).map (fun node => node.id.asStr) ↔
      ∃ node, publicAt store id = some node ∧ keeps node = true := by
  simp only [List.mem_map, List.mem_filter, mem_searched_iff keyed]
  constructor
  · rintro ⟨node, ⟨isPublic, kept⟩, rfl⟩
    exact ⟨node, isPublic, kept⟩
  · rintro ⟨node, isPublic, kept⟩
    have granted := (publicAt_eq_some.mp isPublic).1
    have isId : node.id = ⟨id⟩ := keyed _ node (Option.filter_eq_some_iff.mp granted).1
    exact ⟨node, ⟨by rw [isId]; exact isPublic, kept⟩, by rw [isId]⟩

end Searched

/-! ### The replies -/

/-- What a keyword search replies: identifiers of public nodes that mention the keyword, up to
the limit, and of all of them unless the limit is reached. -/
structure Finds (out : Outside D F) (store : MemStore F) (keyword : String) (limit : Nat)
    (reply : JsonRpcResponse D) : Prop where
  distinct : reply.foundIds.Nodup
  few : reply.foundIds.length ≤ limit
  sound : ∀ id ∈ reply.foundIds, ∃ node, publicAt store id = some node ∧
    Mentions out keyword node
  complete : reply.foundIds.length < limit → ∀ id node, publicAt store id = some node →
    Mentions out keyword node → id ∈ reply.foundIds
  truncated : reply.field "truncated" = some (.bool (reply.foundIds.length == limit))

/-- The identifiers of the public nodes with a head. -/
def idsUnder (store : MemStore F) (head : String) : Set String :=
  {id | ∃ node, publicAt store id = some node ∧ predicateHeadStr node.predicate.head = head}

/-- What a listing of heads replies: the heads of public nodes in order, each with the number
of its nodes. -/
structure CountsHeads (store : MemStore F) (reply : JsonRpcResponse D) : Prop where
  ordered : reply.headCounts.Pairwise fun a b => a.1 < b.1
  counts : ∀ head count, (head, count) ∈ reply.headCounts ↔
    0 < count ∧ count = ((idsUnder store head).ncard : Int)

section Replies

variable (out : Outside D F) (req : JsonRpcRequest D) {store : MemStore F}

theorem field_replyWith {fields : List (String × Json D)}
    (distinct : (fields.map Prod.fst).Nodup) {key : String} {value : Json D}
    (member : (key, value) ∈ fields) :
    (replyWith out req (.object fields)).field key = some value := by
  rw [JsonRpcResponse.field, content_replyWith, Option.bind_some,
    Json.get?_object distinct member]

theorem foundIds_keywordJson (keyword : String) (limit : Nat) (nodes : List (Node F)) :
    (replyWith out req (keywordJson out keyword limit nodes)).foundIds =
      ((nodes.filter fun node =>
        !(matchTypes out (out.toLowercase keyword) node).isEmpty).take limit).map
          fun node => node.id.asStr := by
  have results : (replyWith out req (keywordJson out keyword limit nodes)).field "results" =
      some (.arr (searchLoop out (out.toLowercase keyword) limit nodes [])) :=
    field_replyWith out req (by simp) (by simp)
  rw [JsonRpcResponse.foundIds, JsonRpcResponse.listed, results]
  dsimp only
  rw [searchLoop_eq out _ limit nodes [] (Nat.zero_le _), List.nil_append, List.length_nil,
    Nat.sub_zero, List.filterMap_map, ← List.filterMap_eq_map]
  refine List.filterMap_congr fun node _ => ?_
  have isId : (matchJson out node (matchTypes out (out.toLowercase keyword) node)).get?
      "node_id" = some (.str node.id.asStr) := Json.get?_object (by simp) (by simp)
  rw [Function.comp_apply, isId]
  rfl

theorem finds_keywordJson (keyed : store.Keyed) (keyword : String) (limit : Nat) :
    Finds out store keyword limit
      (replyWith out req (keywordJson out keyword limit (searched store))) := by
  have isFound := foundIds_keywordJson out req keyword limit (searched store)
  obtain ⟨keeps, isKeeps⟩ : ∃ keeps : Node F → Bool, keeps = fun node =>
      !(matchTypes out (out.toLowercase keyword) node).isEmpty := ⟨_, rfl⟩
  have keeps_iff : ∀ node, keeps node = true ↔ Mentions out keyword node := by
    intro node
    rw [isKeeps, Bool.not_eq_true', matchTypes_isEmpty_iff]
  rw [← isKeeps, List.map_take] at isFound
  have member := mem_map_searched_iff keyed keeps
  have distinct : (((searched store).filter keeps).map fun node => node.id.asStr).Nodup :=
    (nodup_searched keyed).sublist (List.filter_sublist.map _)
  refine ⟨?_, ?_, fun id found => ?_, fun short id node isPublic mentions => ?_, ?_⟩
  · rw [isFound]
    exact distinct.sublist (List.take_sublist _ _)
  · rw [isFound]
    exact List.length_take_le _ _
  · rw [isFound] at found
    obtain ⟨node, isPublic, kept⟩ := (member id).mp (List.mem_of_mem_take found)
    exact ⟨node, isPublic, (keeps_iff node).mp kept⟩
  · rw [isFound, List.length_take] at short
    rw [isFound, List.take_of_length_le (by omega), member]
    exact ⟨node, isPublic, (keeps_iff node).mpr mentions⟩
  · have isFlag : (replyWith out req (keywordJson out keyword limit (searched store))).field
        "truncated" = some (.bool ((searchLoop out (out.toLowercase keyword) limit
          (searched store) []).length == limit)) := field_replyWith out req (by simp) (by simp)
    rw [isFlag, isFound, searchLoop_eq out _ limit _ [] (Nat.zero_le _), ← isKeeps]
    simp only [List.nil_append, List.length_nil, Nat.sub_zero, List.length_map, List.length_take]

theorem headCounts_reply {reply : JsonRpcResponse D} {nodes : List (Node F)}
    (listed : reply.field "predicates" = some (predicatesJson (predCounts nodes))) :
    reply.headCounts = (predCounts nodes).toList.map fun entry => (entry.1, (entry.2 : Int)) := by
  rw [JsonRpcResponse.headCounts, JsonRpcResponse.listed, listed, predicatesJson]
  dsimp only
  rw [List.filterMap_map, ← List.filterMap_eq_map]
  refine List.filterMap_congr fun entry _ => ?_
  have isHead : (Json.object [("predicate", .str entry.1), ("count", .int entry.2)] :
      Json D).get? "predicate" = some (.str entry.1) := Json.get?_object (by simp) (by simp)
  have isCount : (Json.object [("predicate", .str entry.1), ("count", .int entry.2)] :
      Json D).get? "count" = some (.int entry.2) := Json.get?_object (by simp) (by simp)
  rw [Function.comp_apply, headCount, isHead, isCount]
  rfl

/-- The number of the public nodes with a head. -/
theorem ncard_idsUnder (keyed : store.Keyed) (head : String) :
    (idsUnder store head).ncard =
      (searched store).countP fun node => predicateHeadStr node.predicate.head == head := by
  have ids : idsUnder store head = ((((searched store).filter fun node =>
      predicateHeadStr node.predicate.head == head).map fun node =>
        node.id.asStr).toFinset : Set String) := by
    ext id
    rw [List.coe_toFinset, Set.mem_ofPred_eq, mem_map_searched_iff keyed]
    simp only [idsUnder, Set.mem_ofPred_eq, beq_iff_eq]
  rw [ids, Set.ncard_coe_finset, List.toFinset_card_of_nodup, List.length_map,
    List.countP_eq_length_filter]
  exact (nodup_searched keyed).sublist (List.filter_sublist.map _)

theorem countsHeads_reply (keyed : store.Keyed) {reply : JsonRpcResponse D}
    (listed : reply.field "predicates" = some (predicatesJson (predCounts (searched store)))) :
    CountsHeads store reply := by
  have isCounts := headCounts_reply listed
  constructor
  · rw [isCounts, List.pairwise_map]
    exact pairwise_predCounts _
  · intro head count
    rw [isCounts, List.mem_map, ncard_idsUnder keyed]
    constructor
    · rintro ⟨entry, member, isEntry⟩
      obtain ⟨some_, isCount⟩ := (mem_predCounts_iff _ _ _).mp member
      obtain ⟨rfl, rfl⟩ := Prod.mk.inj isEntry
      exact ⟨by exact_mod_cast some_, by exact_mod_cast isCount⟩
    · rintro ⟨some_, rfl⟩
      exact ⟨(head, _), (mem_predCounts_iff _ _ _).mpr ⟨by exact_mod_cast some_, rfl⟩, rfl⟩

theorem allActive_run :
    allActive store = .ok (store.backend.nodes.values.filter (·.status == .active)) store := rfl

theorem toolSearch_keyword {args : Json D} {keyword : String} {limit : Option Nat}
    (decoded : out.searchParams args = .ok ⟨"keyword", some keyword, limit⟩)
    (nonempty : keyword ≠ "") : toolSearch out req args store =
      .ok (replyWith out req
        (keywordJson out keyword (min (limit.getD 50) 200) (searched store))) store := by
  unfold toolSearch
  rw [decoded]
  dsimp only
  rw [bind_ok allActive_run, if_neg (by simpa using nonempty)]
  rfl

theorem toolSearch_predicates {args : Json D} {keyword : Option String} {limit : Option Nat}
    (decoded : out.searchParams args = .ok ⟨"predicates", keyword, limit⟩) :
    toolSearch out req args store =
      .ok (replyWith out req (headsJson (searched store))) store := by
  unfold toolSearch
  rw [decoded]
  dsimp only
  rw [bind_ok allActive_run]
  rfl

theorem toolSearch_stats {args : Json D} {keyword : Option String} {limit : Option Nat}
    (decoded : out.searchParams args = .ok ⟨"stats", keyword, limit⟩) :
    toolSearch out req args store =
      .ok (replyWith out req (statsJson store.backend.nodes.size (searched store))) store := by
  unfold toolSearch
  rw [decoded]
  dsimp only
  rw [bind_ok allActive_run]
  refine (bind_ok (len_run store)).trans ?_
  rw [ite_run, if_neg (Nat.not_lt.mpr (length_visible_le store))]
  rfl

/-- A call that replies and leaves the store alone. -/
def OnlyReplies (store : MemStore F) (call : StoreM F (InMemoryBackend F) (JsonRpcResponse D)) :
    Prop :=
  ∃ reply, call store = .ok reply store

theorem onlyReplies_bind {α : Type} {value : α} {first : StoreM F (InMemoryBackend F) α}
    (ran : first store = .ok value store)
    {later : α → StoreM F (InMemoryBackend F) (JsonRpcResponse D)}
    (replies : OnlyReplies store (later value)) : OnlyReplies store (first >>= later) := by
  obtain ⟨reply, ranLater⟩ := replies
  exact ⟨reply, (bind_ok ran).trans ranLater⟩

theorem onlyReplies_toolSearch (args : Json D) :
    OnlyReplies store (toolSearch out req args) := by
  unfold toolSearch
  cases out.searchParams args with
  | error message => exact ⟨_, rfl⟩
  | ok params =>
    refine onlyReplies_bind allActive_run ?_
    dsimp only
    split
    · cases params.keyword with
      | none => exact ⟨_, rfl⟩
      | some keyword =>
        dsimp only
        split_ifs <;> exact ⟨_, rfl⟩
    · exact ⟨_, rfl⟩
    · refine onlyReplies_bind (len_run store) ?_
      rw [if_neg (Nat.not_lt.mpr (length_visible_le store))]
      exact ⟨_, rfl⟩
    · exact ⟨_, rfl⟩

/-- In every reachable store a search finds the public nodes that mention the keyword, as far
as the limit allows, and counts the public nodes under each head. -/
theorem search_exact [F32 F] (preferredForm : PreferredForm) (reachable : Reachable store)
    {args : Json D} {params : FactumSearchParams} (decoded : out.searchParams args = .ok params) :
    ∃ reply, serve out preferredForm req (.search args) store = .ok reply store ∧
      (params.mode = "keyword" → ∀ keyword, params.keyword = some keyword → keyword ≠ "" →
        Finds out store keyword (min (params.limit.getD 50) 200) reply) ∧
      (params.mode = "predicates" ∨ params.mode = "stats" → CountsHeads store reply) := by
  have keyed := reachable.consistent.keyed
  obtain ⟨reply, ran⟩ := @onlyReplies_toolSearch D F out req store args
  obtain ⟨mode, keyword, limit⟩ := params
  refine ⟨reply, ran, ?_, ?_⟩
  · rintro rfl keyword rfl nonempty
    rw [toolSearch_keyword out req decoded nonempty] at ran
    cases ran
    exact finds_keywordJson out req keyed keyword _
  · rintro (rfl | rfl)
    · rw [toolSearch_predicates out req decoded] at ran
      cases ran
      exact countsHeads_reply keyed (field_replyWith out req (by simp) (by simp))
    · rw [toolSearch_stats out req decoded] at ran
      cases ran
      exact countsHeads_reply keyed (field_replyWith out req (by simp) (by simp))

end Replies

/-- Libraries that read the mode and the keyword of a search. -/
def keywordOutside : Outside Unit Rat :=
  { sampleOutside with
    searchParams := fun args =>
      match (args.get? "mode").bind Json.asStr? with
      | some mode => .ok ⟨mode, (args.get? "keyword").bind Json.asStr?, none⟩
      | none => .error "missing field `mode`" }

/-- A search for a place, and one for the heads, over a secret and a public fact. -/
theorem search_exact_guardedStore :
    (∃ reply : JsonRpcResponse Unit,
      serve keywordOutside .canonical firstRequest
          (.search (.obj [("mode", .str "keyword"), ("keyword", .str "located")]))
          guardedStore = .ok reply guardedStore ∧
        Finds keywordOutside guardedStore "located" 50 reply) ∧
    ∃ reply : JsonRpcResponse Unit,
      serve keywordOutside .canonical firstRequest (.search (.obj [("mode", .str "predicates")]))
          guardedStore = .ok reply guardedStore ∧
        CountsHeads guardedStore reply := by
  constructor
  · have decoded : keywordOutside.searchParams
        (.obj [("mode", .str "keyword"), ("keyword", .str "located")]) =
          .ok ⟨"keyword", some "located", none⟩ := rfl
    obtain ⟨reply, ran, finds, -⟩ := search_exact keywordOutside firstRequest .canonical
      sameGranted_guardedStore.reachableRight decoded
    exact ⟨reply, ran, finds rfl "located" rfl (by decide)⟩
  · have decoded : keywordOutside.searchParams (.obj [("mode", .str "predicates")]) =
        .ok ⟨"predicates", none, none⟩ := rfl
    obtain ⟨reply, ran, -, counts⟩ := search_exact keywordOutside firstRequest .canonical
      sameGranted_guardedStore.reachableRight decoded
    exact ⟨reply, ran, counts (.inl rfl)⟩

end McpHandler

end Factum
