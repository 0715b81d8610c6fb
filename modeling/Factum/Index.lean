/-
This file is about what an index scan lists.

A scan walks over all keys of an index and takes the identifiers under those that
start with the encoded key. The invariant of the store says, for one key, how often
an identifier is listed; summed over the keys of a scan it says how often the scan
lists it: once for each entry of the stored node whose key starts with the encoded
key, and never if no such node is stored.
-/

import Factum.Runs

namespace Factum

variable {F : Type}

/-- The identifier that an operation adds to an index under some key of a scan. -/
def WriteOp.scanned? (cf : Cf) (key : List UInt8) : WriteOp F → Option NodeId
  | .putIndex cf' key' nodeId =>
    if cf' = cf ∧ (encodeIndexPrefix key).isPrefixOf key' = true then some nodeId else none
  | _ => none

/-- The entries of a node that a scan of an index lists. -/
def scanEntries (registry : MorphemeRegistry) (cf : Cf) (key : List UInt8) (node : Node F) :
    List NodeId :=
  (buildInsertOps registry node).filterMap (WriteOp.scanned? cf key)

/-- The entries under the keys of a scan, summed over the keys, are the entries of the
scan. -/
theorem sum_entriesAt (cf : Cf) (key : List UInt8) {keys : List (List UInt8)}
    (distinct : keys.Nodup) : ∀ (ops : List (WriteOp F)),
    (∀ cf' key' nodeId, .putIndex cf' key' nodeId ∈ ops → cf' = cf → key' ∈ keys) →
    ((keys.filter (encodeIndexPrefix key).isPrefixOf).map fun other =>
        (ops.filterMap (WriteOp.entryAt? cf other)).length).sum =
      (ops.filterMap (WriteOp.scanned? cf key)).length := by
  intro ops
  induction ops with
  | nil => simp
  | cons op rest inductionHypothesis =>
    intro covered
    have later := inductionHypothesis fun cf' key' nodeId member =>
      covered cf' key' nodeId (List.mem_cons_of_mem _ member)
    have split : ∀ f : WriteOp F → Option NodeId,
        ((op :: rest).filterMap f).length = (f op).toList.length + (rest.filterMap f).length := by
      intro f
      cases result : f op with
      | none => rw [List.filterMap_cons_none result, Option.toList_none, List.length_nil, zero_add]
      | some id =>
        rw [List.filterMap_cons_some result, List.length_cons, Option.toList_some,
          List.length_singleton, add_comm]
    simp only [split, List.sum_map_add, later, Nat.add_right_cancel_iff]
    -- one operation: its key occurs once among the keys
    cases op with
    | putIndex cf' key' nodeId =>
      by_cases sameCf : cf' = cf
      · subst sameCf
        have member := covered cf' key' nodeId List.mem_cons_self rfl
        have entry : ∀ other, (WriteOp.entryAt? cf' other
            (.putIndex cf' key' nodeId : WriteOp F)).toList.length =
            if key' = other then 1 else 0 := by
          intro other
          simp only [WriteOp.entryAt?, true_and]
          split_ifs <;> rfl
        have countSum : ∀ others : List (List UInt8),
            (others.map fun other => if key' = other then 1 else 0).sum = others.count key' := by
          intro others
          induction others with
          | nil => rfl
          | cons other later inductionHypothesis =>
            rw [List.map_cons, List.sum_cons, inductionHypothesis, List.count_cons, add_comm]
            by_cases same : key' = other
            · rw [if_pos same, if_pos (by simpa using same.symm)]
            · rw [if_neg same, if_neg (by simpa using Ne.symm same)]
        simp only [entry]
        rw [countSum, WriteOp.scanned?]
        by_cases inScan : (encodeIndexPrefix key).isPrefixOf key' = true
        · rw [List.count_eq_one_of_mem (distinct.filter _) (List.mem_filter.mpr ⟨member, inScan⟩),
            if_pos ⟨rfl, inScan⟩]
          rfl
        · rw [List.count_eq_zero_of_not_mem fun inside => inScan (List.mem_filter.mp inside).2,
            if_neg fun both => inScan both.2]
          rfl
      · have noEntry : ∀ other, WriteOp.entryAt? cf other
            (.putIndex cf' key' nodeId : WriteOp F) = none := by
          intro other
          exact if_neg fun both => sameCf both.1
        have noScan : WriteOp.scanned? cf key (.putIndex cf' key' nodeId : WriteOp F) = none :=
          if_neg fun both => sameCf both.1
        simp [noEntry, noScan]
    | putNode node => simp [WriteOp.entryAt?, WriteOp.scanned?]
    | deleteNode id => simp [WriteOp.entryAt?, WriteOp.scanned?]
    | deleteIndex cf' key' nodeId => simp [WriteOp.entryAt?, WriteOp.scanned?]

namespace FactumStore

/-- How often a scan lists an identifier: once for each entry of its node in the scan. -/
theorem count_scan {store : MemStore F} (consistent : store.Consistent) (cf : Cf)
    (key : List UInt8) (id : NodeId) :
    (store.scan cf key).count id =
      ((store.nodeAt id).map fun node =>
        (scanEntries store.registry cf key node).length).getD 0 := by
  have index := fun other => consistent.index cf other id
  unfold idsAt InMemoryBackend.idsAt at index
  -- every entry of a stored node is in the index
  have listed : ∀ node, store.nodeAt id = some node → ∀ cf' key' nodeId,
      .putIndex cf' key' nodeId ∈ buildInsertOps store.registry node → cf' = cf →
      0 < (((store.backend.indices.lookup cf).map (·.getList key')).getD []).count id := by
    rintro node stored cf' key' nodeId isOp rfl
    rw [index, stored, Option.map_some, Option.getD_some]
    refine List.length_pos_of_mem (List.mem_filterMap.mpr ⟨_, isOp, ?_⟩) (a := nodeId)
    exact if_pos ⟨rfl, rfl⟩
  unfold scan InMemoryBackend.scanIndex
  cases found : store.backend.indices.lookup cf with
  | none =>
    cases stored : store.nodeAt id with
    | none => rfl
    | some node =>
      have noEntries : scanEntries store.registry cf key node = [] := by
        rw [scanEntries, List.filterMap_eq_nil_iff]
        intro op isOp
        rcases buildInsertOps_shape store.registry node op isOp with
          rfl | ⟨cf', shortKey, _, rfl⟩
        · rfl
        · refine if_neg fun both => ?_
          have some := listed node stored cf' _ _ isOp both.1
          rw [found] at some
          exact absurd some (by simp)
      simp [noEntries]
  | some cfMap =>
    simp only [found, Option.map_some, Option.getD_some] at index listed
    simp only [List.count_flatMap, Hash.Map.toList_eq_map, List.filter_map, List.map_map]
    show ((cfMap.keys.filter (encodeIndexPrefix key).isPrefixOf).map fun other =>
      (cfMap.getList other).count id).sum = _
    simp only [index]
    cases stored : store.nodeAt id with
    | none => simp
    | some node =>
      refine sum_entriesAt cf key cfMap.nodup_keys _ fun cf' key' nodeId isOp sameCf => ?_
      exact cfMap.mem_keys_of_mem_getList
        (List.count_pos_iff.mp (listed node stored cf' key' nodeId isOp sameCf))

end FactumStore

end Factum
