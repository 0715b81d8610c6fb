/-
This file is about what a reader without access learns from a query.

Two stores may differ in every node that a role mask does not grant. The candidates
of a query come from an index that lists those nodes too, but the permission filter
runs before matching and arbitration, so a query depends only on the granted part
of a scan. That part lists the granted nodes as often as the nodes themselves say,
the same in both stores; only the order in which the hash maps iterate is left, and
two scans that agree on it are equal.
-/

import Factum.Candidates

namespace Factum

open Stateful

variable {F : Type}

/-- Two listings that do not differ in their order alone: if one is a rearrangement of the
other, they are equal. -/
def SameOrder {α : Type} (left right : List α) : Prop := left.Perm right → left = right

namespace FactumStore

/-- The node stored under an identifier, if the role mask grants access to it. -/
def grantedAt (store : MemStore F) (mask : UInt32) (id : NodeId) : Option (Node F) :=
  (store.nodeAt id).filter (·.permissions.grants mask)

/-- The part of a scan that lists granted nodes. -/
def grantedScan (store : MemStore F) (mask : UInt32) (cf : Cf) (key : List UInt8) :
    List NodeId :=
  (store.scan cf key).filter fun id => (store.grantedAt mask id).isSome

/-- What is granted of a scan is listed as often in one store as in the other. -/
theorem grantedScan_perm {left right : MemStore F} (consistentLeft : left.Consistent)
    (consistentRight : right.Consistent) (registry : left.registry = right.registry)
    {mask : UInt32} (same : ∀ id, left.grantedAt mask id = right.grantedAt mask id) (cf : Cf)
    (key : List UInt8) : (left.grantedScan mask cf key).Perm (right.grantedScan mask cf key) := by
  have count : ∀ {store : MemStore F}, store.Consistent → ∀ id,
      (store.grantedScan mask cf key).count id =
        ((store.grantedAt mask id).map fun node =>
          (scanEntries store.registry cf key node).length).getD 0 := by
    intro store consistent id
    unfold grantedScan
    cases granted : store.grantedAt mask id with
    | none =>
      rw [List.count_eq_zero_of_not_mem fun member => by
        simpa [granted] using (List.mem_filter.mp member).2]
      rfl
    | some node =>
      have stored := (Option.filter_eq_some_iff.mp granted).1
      rw [List.count_filter (by rw [granted]; rfl), count_scan consistent, stored]
  rw [List.perm_iff_count]
  intro id
  rw [count consistentLeft, count consistentRight, same, registry]

variable [F32 F]

/-- The matches of a query depend on the granted part of its scan only. -/
theorem queryMatches_granted (store : MemStore F) (q : Query) (options : QueryOptions F)
    (ids : List NodeId) :
    (ids.filterMap store.activeAt).filterMap (matchOf q options) =
      (ids.filter fun id => (store.grantedAt options.perm.roleMask id).isSome).filterMap fun id =>
        ((store.grantedAt options.perm.roleMask id).filter (·.status == .active)).bind
          (matchOf q options) := by
  rw [List.filterMap_filterMap, List.filterMap_filter]
  refine List.filterMap_congr fun id _ => ?_
  unfold activeAt grantedAt
  cases store.nodeAt id with
  | none => rfl
  | some node =>
    by_cases granted : node.permissions.grants options.perm.roleMask = true
    · simp [Option.filter, granted]
    · have hidden : matchOf q options node = none := by
        simp [matchOf, passesFilters, checkPermission, granted]
      by_cases active : node.status = .active <;> simp [Option.filter, granted, hidden, active]

/-- Two stores with the same granted nodes, listed in the same order, find the same matches. -/
theorem matches_eq_of_granted {left right : MemStore F} (consistentLeft : left.Consistent)
    (consistentRight : right.Consistent) (registry : left.registry = right.registry)
    (q : Query) (options : QueryOptions F)
    (same : ∀ id, left.grantedAt options.perm.roleMask id =
      right.grantedAt options.perm.roleMask id)
    (order : ∀ cf key, SameOrder (left.grantedScan options.perm.roleMask cf key)
      (right.grantedScan options.perm.roleMask cf key)) :
    ((left.candidateScan q).filterMap left.activeAt).filterMap (matchOf q options) =
      ((right.candidateScan q).filterMap right.activeAt).filterMap (matchOf q options) := by
  have scans : ∀ cf key, left.grantedScan options.perm.roleMask cf key =
      right.grantedScan options.perm.roleMask cf key := fun cf key =>
    order cf key (grantedScan_perm consistentLeft consistentRight registry same cf key)
  have candidates : (left.candidateScan q).filter
        (fun id => (left.grantedAt options.perm.roleMask id).isSome) =
      (right.candidateScan q).filter
        fun id => (right.grantedAt options.perm.roleMask id).isSome := by
    unfold candidateScan
    cases q.entityFilter with
    | some entity => exact scans .byEntity _
    | none =>
      rw [registry]
      exact scans .byPred _
  rw [queryMatches_granted, queryMatches_granted, candidates]
  simp only [same]

/-- Two stores with the same granted nodes, listed in the same order, answer every query
alike: same results, same bindings, same ambiguous flag. -/
theorem query_noninterference {left right : MemStore F} (reachableLeft : Reachable left)
    (reachableRight : Reachable right) (registry : left.registry = right.registry)
    (q : Query) (options : QueryOptions F)
    (same : ∀ id, left.grantedAt options.perm.roleMask id =
      right.grantedAt options.perm.roleMask id)
    (order : ∀ cf key, SameOrder (left.grantedScan options.perm.roleMask cf key)
      (right.grantedScan options.perm.roleMask cf key))
    (hasher : Hash.Order String) (host : Host F) :
    answer (query hasher host q options) left = answer (query hasher host q options) right := by
  have found := matches_eq_of_granted reachableLeft.consistent reachableRight.consistent registry
    q options same order
  unfold answer
  rw [query_run (queryMatches_run left q options), query_run (queryMatches_run right q options),
    found]
  cases arbitrate hasher host
    (((right.candidateScan q).filterMap right.activeAt).filterMap (matchOf q options))
    options.policy (some q.pattern) <;> rfl

/-! ### A store with a hidden node -/

/-- A restricted fact about the entities of the premise. -/
def secret : Node Rat :=
  { premise with
    id := ⟨"n9"⟩
    permissions := .restrictedTag }

/-- The store with the premise and the restricted fact. -/
def guardedStore : MemStore Rat := blank.run [.insert secret, .insert premise]

/-- The store with the premise alone. -/
def openStore : MemStore Rat := blank.run [.insert premise]

theorem grantedAt_openStore (id : NodeId) :
    openStore.grantedAt 1 id = if id = ⟨"n1"⟩ then some premise else none := by
  have taken : blank.Accepts [premise] := ⟨fun _ _ => rfl, fun _ _ => rfl, by simp⟩
  unfold grantedAt openStore run
  rw [List.foldl_cons, List.foldl_nil, after_insert_of_accepts taken,
    nodeAt_admitted _ taken.distinct]
  by_cases isPremise : id = ⟨"n1"⟩
  · rw [if_pos isPremise, isPremise]
    decide
  · have other : [premise].find? (·.id == id) = none := by
      simpa [premise, Node.new] using Ne.symm isPremise
    rw [if_neg isPremise, other]
    rfl

theorem grantedAt_guardedStore (id : NodeId) :
    guardedStore.grantedAt 1 id = if id = ⟨"n1"⟩ then some premise else none := by
  have first : blank.Accepts [secret] := ⟨fun _ _ => rfl, fun _ _ => rfl, by simp⟩
  have second : (blank.admitted [secret]).Accepts [premise] :=
    ⟨fun _ _ => rfl, fun node member => by
      rw [List.mem_singleton.mp member]
      decide, by simp⟩
  unfold grantedAt guardedStore run
  rw [List.foldl_cons, List.foldl_cons, List.foldl_nil, after_insert_of_accepts first,
    after_insert_of_accepts second, nodeAt_admitted _ second.distinct,
    nodeAt_admitted _ first.distinct]
  by_cases isPremise : id = ⟨"n1"⟩
  · rw [if_pos isPremise, isPremise]
    decide
  · have other : [premise].find? (·.id == id) = none := by
      simpa [premise, Node.new] using Ne.symm isPremise
    rw [if_neg isPremise, other, Option.none_or]
    by_cases isSecret : id = ⟨"n9"⟩
    · rw [isSecret]
      decide
    · have absent : [secret].find? (·.id == id) = none := by
        simpa [secret] using Ne.symm isSecret
      rw [absent]
      rfl

/-- Only the premise is granted in either store, so their scans repeat its identifier. -/
theorem grantedScan_sameOrder (cf : Cf) (key : List UInt8) :
    SameOrder (openStore.grantedScan 1 cf key) (guardedStore.grantedScan 1 cf key) := by
  intro rearranged
  have only : ∀ id ∈ openStore.grantedScan 1 cf key, id = ⟨"n1"⟩ := by
    intro id member
    have granted := (List.mem_filter.mp member).2
    rw [grantedAt_openStore] at granted
    by_contra other
    rw [if_neg other] at granted
    exact Bool.noConfusion granted
  have onlyRight : ∀ id ∈ guardedStore.grantedScan 1 cf key, id = ⟨"n1"⟩ :=
    fun id member => only id (rearranged.mem_iff.mpr member)
  exact (List.eq_replicate_of_mem only).trans
    ((congrArg (List.replicate · _) rearranged.length_eq).trans
      (List.eq_replicate_of_mem onlyRight).symm)

/-- A public query answers the same whether or not the restricted fact is stored. -/
theorem query_noninterference_secret :
    answer (query (.asStored _) default locatedInB publicOptions) openStore =
      answer (query (.asStored _) default locatedInB publicOptions) guardedStore := by
  refine query_noninterference ((Reachable.empty _ _ _).run _) ((Reachable.empty _ _ _).run _)
    (by rfl) locatedInB publicOptions ?_ ?_ _ _
  · intro id
    show openStore.grantedAt 1 id = guardedStore.grantedAt 1 id
    rw [grantedAt_openStore, grantedAt_guardedStore]
  · exact grantedScan_sameOrder

end FactumStore

end Factum
