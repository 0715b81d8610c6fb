/-
This file is about the matches that a query hands to arbitration.

A query takes its candidates from the head index. Each node has one entry there,
under its own head, so a scan lists no identifier twice and lists every stored node
with the head of the pattern; nodes with another head that the scan also lists do
not match. What arbitration gets is therefore exactly what passes the filters and
matches, each once.
-/

import Factum.Index
import Factum.Query
import Factum.Retraction

namespace Factum

open Stateful

variable {F : Type}

/-- The head index holds one entry of a node, under its head. -/
theorem scanEntries_byPred (registry : MorphemeRegistry) (key : List UInt8) (node : Node F) :
    scanEntries registry .byPred key node =
      if (encodeIndexPrefix key).isPrefixOf
          (encodeIndexKey (Utf8.ofString (registry.headName node.predicate.head)) node.id) = true
      then [node.id] else [] := by
  have noEntity : ∀ terms : List Term, (collectEntityIndexOpsList node.id terms :
      List (WriteOp F)).filterMap (WriteOp.scanned? .byPred key) = [] := by
    intro terms
    rw [List.filterMap_eq_nil_iff]
    intro op member
    obtain ⟨shortKey, rfl⟩ := collectEntityIndexOpsList_shape node.id terms op member
    simp [WriteOp.scanned?]
  simp only [scanEntries, buildInsertOps, List.filterMap_append, noEntity, List.append_nil]
  by_cases inScan : (encodeIndexPrefix key).isPrefixOf
      (encodeIndexKey (Utf8.ofString (registry.headName node.predicate.head)) node.id) = true
  · simp [WriteOp.scanned?, inScan]
  · simp [WriteOp.scanned?, inScan]

theorem encodeIndexPrefix_isPrefixOf (key : List UInt8) (id : NodeId) :
    (encodeIndexPrefix key).isPrefixOf (encodeIndexKey key id) = true := by
  rw [List.isPrefixOf_iff_prefix, encodeIndexPrefix, encodeIndexKey]
  exact ⟨Utf8.ofString id.asStr, by simp⟩

namespace FactumStore

theorem nodup_scan_byPred {store : MemStore F} (consistent : store.Consistent)
    (key : List UInt8) : (store.scan .byPred key).Nodup := by
  rw [List.nodup_iff_count_le_one]
  intro id
  rw [count_scan consistent]
  cases store.nodeAt id with
  | none => exact Nat.zero_le 1
  | some node =>
    rw [Option.map_some, Option.getD_some, scanEntries_byPred]
    split_ifs
    · exact le_refl 1
    · exact Nat.zero_le 1

/-- A scan for a head lists every stored node with that head. -/
theorem mem_scan_byPred {store : MemStore F} (consistent : store.Consistent) {id : NodeId}
    {node : Node F} (stored : store.nodeAt id = some node) :
    id ∈ store.scan .byPred
      (Utf8.ofString (store.registry.headName node.predicate.head)) := by
  rw [← List.count_pos_iff, count_scan consistent, stored, Option.map_some, Option.getD_some,
    scanEntries_byPred, if_pos (encodeIndexPrefix_isPrefixOf _ node.id)]
  exact Nat.zero_lt_one

variable [F32 F]

/-- The index and the key that a query takes its candidates from. -/
def candidateScan (store : MemStore F) (q : Query) : List NodeId :=
  match q.entityFilter with
  | some entity => store.scan .byEntity (Utf8.ofString entity.asStr)
  | none => store.scan .byPred (Utf8.ofString (store.registry.headName q.pattern.head))

/-- The match of a node with a query, if it passes the filters. -/
def matchOf (q : Query) (options : QueryOptions F) (node : Node F) : Option (QueryResult F) :=
  if passesFilters options node then
    (matchPattern q.pattern node.predicate).map fun bindings => ⟨node, bindings⟩
  else none

theorem queryMatches_run (store : MemStore F) (q : Query) (options : QueryOptions F) :
    queryMatches q options store = .ok
      (((store.candidateScan q).filterMap store.activeAt).filterMap (matchOf q options))
      store := by
  have candidates : getCandidates q store =
      .ok ((store.candidateScan q).filterMap store.activeAt) store := by
    unfold getCandidates candidateScan
    cases q.entityFilter with
    | some entity => exact lookupIndex_run store .byEntity entity.asStr
    | none => exact lookupIndex_run store .byPred _
  rw [queryMatches, bind_ok candidates, pure_run, List.filterMap_filter]
  rfl

/-- A query hands what it finds to arbitration and leaves the store as it was. -/
theorem query_run {store : MemStore F} {q : Query} {options : QueryOptions F}
    {found : List (QueryResult F)} (finds : queryMatches q options store = .ok found store)
    (hasher : Hash.Order String) (host : Host F) :
    query hasher host q options store =
      match arbitrate hasher host found options.policy (some q.pattern) with
      | some (results, ambiguous) => .ok ⟨results, ambiguous⟩ store
      | none => .error .panic store := by
  unfold query
  rw [bind_ok finds]
  cases arbitrate hasher host found options.policy (some q.pattern) <;> rfl

/-- A match of a node passes the filters and matches the pattern. -/
theorem matchOf_eq_some_iff {q : Query} {options : QueryOptions F} {node : Node F}
    {result : QueryResult F} : matchOf q options node = some result ↔
      result.node = node ∧ passesFilters options node = true ∧
        matchPattern q.pattern node.predicate = some result.bindings := by
  unfold matchOf
  split_ifs with passes
  · rw [Option.map_eq_some_iff]
    constructor
    · rintro ⟨bindings, matched, rfl⟩
      exact ⟨rfl, passes, matched⟩
    · rintro ⟨rfl, _, matched⟩
      exact ⟨_, matched, rfl⟩
  · exact iff_of_false id fun both => passes both.2.1

/-- The matches of some nodes are matches of some of them, in order. -/
theorem sublist_matches (q : Query) (options : QueryOptions F) (nodes : List (Node F)) :
    ((nodes.filterMap (matchOf q options)).map fun result => result.node.id).Sublist
      (nodes.map Node.id) := by
  induction nodes with
  | nil => exact .slnil
  | cons node rest inductionHypothesis =>
    cases matched : matchOf q options node with
    | none =>
      rw [List.filterMap_cons_none matched]
      exact inductionHypothesis.cons _
    | some result =>
      have sameNode := (matchOf_eq_some_iff.mp matched).1
      rw [List.filterMap_cons_some matched, List.map_cons, List.map_cons, sameNode]
      exact inductionHypothesis.cons_cons _

/-- Only a predicate with the head of the pattern matches. -/
theorem head_of_matchPattern {pattern concrete : Predicate} {bindings : Bindings}
    (matched : matchPattern pattern concrete = some bindings) :
    pattern.head = concrete.head := by
  obtain ⟨head, args, named⟩ := pattern
  obtain ⟨concreteHead, concreteArgs, concreteNamed⟩ := concrete
  cases head with
  | id id => simp [matchPattern] at matched
  | name name =>
    cases concreteHead with
    | id id => simp [matchPattern] at matched
    | name concreteName =>
      by_cases same : name = concreteName
      · rw [same]
      · simp [matchPattern, same] at matched

/-- A stored node that is active, valid, granted, confident enough and matches the pattern of
a query, with its bindings. -/
def IsMatch (store : MemStore F) (q : Query) (options : QueryOptions F) (result : QueryResult F) :
    Prop :=
  store.nodeAt result.node.id = some result.node ∧
    result.node.status = .active ∧
    result.node.validity.isValidAt options.now = true ∧
    result.node.permissions.grants options.perm.roleMask = true ∧
    F32.lt result.node.confidence.value options.minConf.value = false ∧
    matchPattern q.pattern result.node.predicate = some result.bindings

/-- A match is an active node with its match. -/
theorem isMatch_iff {store : MemStore F} {q : Query} {options : QueryOptions F}
    {result : QueryResult F} : store.IsMatch q options result ↔
      store.activeAt result.node.id = some result.node ∧
        matchOf q options result.node = some result := by
  rw [activeAt_eq_some, matchOf_eq_some_iff]
  simp only [IsMatch, passesFilters, checkPermission, Node.isActiveValidAt, Bool.and_eq_true,
    Bool.not_eq_true', beq_iff_eq, true_and]
  tauto

theorem IsMatch.stored {store : MemStore F} {q : Query} {options : QueryOptions F}
    {result : QueryResult F} (isMatch : store.IsMatch q options result) :
    store.nodeAt result.node.id = some result.node := isMatch.1

theorem IsMatch.matched {store : MemStore F} {q : Query} {options : QueryOptions F}
    {result : QueryResult F} (isMatch : store.IsMatch q options result) :
    matchPattern q.pattern result.node.predicate = some result.bindings := isMatch.2.2.2.2.2

/-- What an identifier gives among the matches. -/
theorem bind_matchOf_eq_some_iff {store : MemStore F} (keyed : store.Keyed) {id : NodeId}
    {q : Query} {options : QueryOptions F} {result : QueryResult F} :
    (store.activeAt id).bind (matchOf q options) = some result ↔
      result.node.id = id ∧ store.IsMatch q options result := by
  rw [Option.bind_eq_some_iff, isMatch_iff]
  constructor
  · rintro ⟨node, active, matched⟩
    obtain rfl := (matchOf_eq_some_iff.mp matched).1
    obtain rfl := keyed id _ ((activeAt_eq_some _ _ _).mp active).1
    exact ⟨rfl, active, matched⟩
  · rintro ⟨rfl, active, matched⟩
    exact ⟨result.node, active, matched⟩

/-- The matches among some identifiers. -/
theorem mem_matches_iff {store : MemStore F} (keyed : store.Keyed) (ids : List NodeId) (q : Query)
    (options : QueryOptions F) (result : QueryResult F) :
    result ∈ (ids.filterMap store.activeAt).filterMap (matchOf q options) ↔
      result.node.id ∈ ids ∧ store.IsMatch q options result := by
  rw [List.filterMap_filterMap, List.mem_filterMap]
  simp only [bind_matchOf_eq_some_iff keyed]
  constructor
  · rintro ⟨_, listed, rfl, isMatch⟩
    exact ⟨listed, isMatch⟩
  · rintro ⟨listed, isMatch⟩
    exact ⟨_, listed, rfl, isMatch⟩

/-- A match is among the matches as often as its node is among the identifiers. -/
theorem count_matches {store : MemStore F} (keyed : store.Keyed) (ids : List NodeId) {q : Query}
    {options : QueryOptions F} {result : QueryResult F} (isMatch : store.IsMatch q options result) :
    (((ids.filterMap store.activeAt).filterMap (matchOf q options)).map
      fun other => other.node.id).count result.node.id = ids.count result.node.id := by
  have here := (bind_matchOf_eq_some_iff keyed).mpr ⟨rfl, isMatch⟩
  rw [List.filterMap_filterMap, map_filterMap_eq_filter fun id other found =>
    ((bind_matchOf_eq_some_iff keyed).mp found).1]
  exact List.count_filter (by rw [here]; rfl)

/-- The matches of a query by its head. -/
def headMatches (store : MemStore F) (q : Query) (options : QueryOptions F) :
    List (QueryResult F) :=
  ((store.scan .byPred (Utf8.ofString (store.registry.headName q.pattern.head))).filterMap
    store.activeAt).filterMap (matchOf q options)

theorem nodup_headMatches {store : MemStore F} (consistent : store.Consistent) (q : Query)
    (options : QueryOptions F) :
    ((store.headMatches q options).map fun result => result.node.id).Nodup :=
  (nodup_scan_byPred consistent _).sublist
    ((sublist_matches q options _).trans (sublist_active consistent.keyed _))

theorem mem_headMatches_iff {store : MemStore F} (consistent : store.Consistent) (q : Query)
    (options : QueryOptions F) (result : QueryResult F) :
    result ∈ store.headMatches q options ↔ store.IsMatch q options result := by
  rw [headMatches, mem_matches_iff consistent.keyed, and_iff_right_iff_imp]
  rintro ⟨stored, _, _, _, _, matched⟩
  rw [head_of_matchPattern matched]
  exact mem_scan_byPred consistent stored

/-- A query without an entity filter hands arbitration exactly the stored nodes that are
active, valid, granted, confident enough and match the pattern, each once and with its
bindings. -/
theorem queryMatches_exact {store : MemStore F} (reachable : Reachable store) (q : Query)
    (unfiltered : q.entityFilter = none) (options : QueryOptions F) :
    ∃ found, queryMatches q options store = .ok found store ∧
      (found.map fun result => result.node.id).Nodup ∧
      ∀ result, result ∈ found ↔
        store.nodeAt result.node.id = some result.node ∧
        result.node.status = .active ∧
        result.node.validity.isValidAt options.now = true ∧
        result.node.permissions.grants options.perm.roleMask = true ∧
        F32.lt result.node.confidence.value options.minConf.value = false ∧
        matchPattern q.pattern result.node.predicate = some result.bindings := by
  have candidates : store.candidateScan q =
      store.scan .byPred (Utf8.ofString (store.registry.headName q.pattern.head)) := by
    rw [candidateScan, unfiltered]
  refine ⟨store.headMatches q options, ?_, nodup_headMatches reachable.consistent q options,
    mem_headMatches_iff reachable.consistent q options⟩
  rw [queryMatches_run, candidates]
  rfl

/-- The query for everything located in B. -/
def locatedInB : Query := ⟨⟨.name "located-in", [.var "x", .ent ⟨"B"⟩], []⟩, none⟩

/-- Public access at the start of 1970. -/
def publicOptions : QueryOptions Rat :=
  ⟨.latestWins, ⟨0, 0, DateTime.zero_inRange⟩, ⟨0⟩, .publicAccess⟩

/-- The query for everything located in B over a premise and its conclusion. -/
theorem queryMatches_exact_locatedInB :
    ∃ found, queryMatches locatedInB publicOptions supportedStore = .ok found supportedStore ∧
      (found.map fun result => result.node.id).Nodup ∧
      ∀ result, result ∈ found ↔
        supportedStore.nodeAt result.node.id = some result.node ∧
        result.node.status = .active ∧
        result.node.validity.isValidAt publicOptions.now = true ∧
        result.node.permissions.grants publicOptions.perm.roleMask = true ∧
        F32.lt result.node.confidence.value publicOptions.minConf.value = false ∧
        matchPattern locatedInB.pattern result.node.predicate = some result.bindings :=
  queryMatches_exact reachable_supportedStore locatedInB rfl publicOptions

end FactumStore

end Factum
