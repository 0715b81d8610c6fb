/-
This file is about the lookups by head and by source.

Each node has one entry in the index of heads and one in the index of sources. The key of a
source is a document, a premise or a principal, whichever the provenance names, so that a
lookup by a document also answers what was derived from a premise of that name or asserted
by a principal of that name. For keys without zero bytes both lookups are exact: they answer
the stored active nodes with the key, each once.
-/

import Factum.Entities

namespace Factum

open Stateful

variable {F : Type}

/-- A text whose bytes are free of zero. -/
def NulFreeText (text : String) : Prop := (0 : UInt8) ∉ Utf8.ofString text

instance (text : String) : Decidable (NulFreeText text) :=
  inferInstanceAs (Decidable ((0 : UInt8) ∉ Utf8.ofString text))

/-- The key of a node in the index of heads or of sources. -/
def Node.indexKey (registry : MorphemeRegistry) (node : Node F) : Cf → Option String
  | .byPred => some (registry.headName node.predicate.head)
  | .bySrc => some node.provenance.sourceKey
  | _ => none

/-- The keys of a node in the indices of heads and of sources are free of zero bytes. -/
def Node.KeysNulFree (registry : MorphemeRegistry) (node : Node F) : Prop :=
  ∀ cf text, node.indexKey registry cf = some text → NulFreeText text

/-- The indices of heads and of sources hold one entry of a node. -/
theorem scanEntries_indexKey (registry : MorphemeRegistry) {cf : Cf} (key : List UInt8)
    {node : Node F} {text : String} (isKey : node.indexKey registry cf = some text) :
    scanEntries registry cf key node =
      if (encodeIndexPrefix key).isPrefixOf (encodeIndexKey (Utf8.ofString text) node.id) = true
      then [node.id] else [] := by
  have notEntity : cf ≠ .byEntity := by
    rintro rfl
    cases isKey
  have noEntity : ∀ terms : List Term, (collectEntityIndexOpsList node.id terms :
      List (WriteOp F)).filterMap (WriteOp.scanned? cf key) = [] := by
    intro terms
    rw [List.filterMap_eq_nil_iff]
    intro op member
    obtain ⟨shortKey, rfl⟩ := collectEntityIndexOpsList_shape node.id terms op member
    exact if_neg fun both => notEntity both.1.symm
  simp only [scanEntries, buildInsertOps, List.filterMap_append, noEntity, List.append_nil]
  cases cf with
  | byPred =>
    cases isKey
    split_ifs with inScan <;> simp [WriteOp.scanned?, inScan]
  | bySrc =>
    cases isKey
    split_ifs with inScan <;> simp [WriteOp.scanned?, inScan]
  | nodes => cases isKey
  | byEntity => cases isKey
  | byPerm => cases isKey

namespace FactumStore

/-- A lookup answers exactly the stored active nodes of a kind, each once. -/
def AnswersExactly (store : MemStore F) (lookup : StoreM F (InMemoryBackend F) (List (Node F)))
    (kind : Node F → Prop) : Prop :=
  ∃ found, lookup store = .ok found store ∧ (found.map Node.id).Nodup ∧
    ∀ node, node ∈ found ↔ store.nodeAt node.id = some node ∧ node.status = .active ∧ kind node

/-- A lookup is exact where its scan lists each active node of the kind once, and no other
active node. -/
theorem answersExactly_lookupIndex {store : MemStore F} (consistent : store.Consistent) {cf : Cf}
    {key : String} {kind : Node F → Prop} [DecidablePred kind]
    (once : store.EveryActive fun node =>
      (scanEntries store.registry cf (Utf8.ofString key) node).length =
        if kind node then 1 else 0) :
    store.AnswersExactly (lookupIndex cf key) kind := by
  have listed : ∀ id node, store.nodeAt id = some node → node.status = .active →
      (store.scan cf (Utf8.ofString key)).count id = if kind node then 1 else 0 := by
    intro id node stored active
    rw [count_scan consistent, stored, Option.map_some, Option.getD_some,
      once id node stored active]
  refine ⟨_, lookupIndex_run store cf key, ?_, fun node => ?_⟩
  · rw [map_id_active consistent.keyed, List.nodup_iff_count_le_one]
    intro id
    by_cases isActive : (store.activeAt id).isSome = true
    · obtain ⟨node, stored, active⟩ := (activeAt_isSome_iff store id).mp isActive
      rw [List.count_filter (p := fun id => (store.activeAt id).isSome) isActive,
        listed id node stored active]
      split_ifs <;> omega
    · rw [List.count_eq_zero_of_not_mem (a := id) ?_]
      · exact Nat.zero_le 1
      · exact fun member => isActive (List.mem_filter.mp member).2
  · rw [List.mem_filterMap]
    simp only [activeAt_eq_some]
    constructor
    · rintro ⟨id, isListed, stored, active⟩
      have positive := List.count_pos_iff.mpr isListed
      rw [listed id node stored active] at positive
      refine ⟨?_, active, by_contra fun other => ?_⟩
      · rw [consistent.keyed id node stored]
        exact stored
      · rw [if_neg other] at positive
        exact absurd positive (lt_irrefl 0)
    · rintro ⟨stored, active, isKind⟩
      refine ⟨node.id, List.count_pos_iff.mp ?_, stored, active⟩
      rw [listed node.id node stored active, if_pos isKind]
      exact Nat.zero_lt_one

theorem answersExactly_indexKey {store : MemStore F} (consistent : store.Consistent)
    (plain : store.EveryActive (Node.KeysNulFree store.registry)) {cf : Cf}
    (isIndex : cf = .byPred ∨ cf = .bySrc) {key : String} (nulFree : NulFreeText key) :
    store.AnswersExactly (lookupIndex cf key)
      fun node => node.indexKey store.registry cf = some key := by
  refine answersExactly_lookupIndex consistent fun id node stored active => ?_
  obtain ⟨text, isKey⟩ : ∃ text, node.indexKey store.registry cf = some text := by
    rcases isIndex with rfl | rfl <;> exact ⟨_, rfl⟩
  have inScan := isPrefixOf_encodeIndexKey_iff nulFree (plain id node stored active cf text isKey)
    node.id
  rw [scanEntries_indexKey store.registry _ isKey, isKey]
  by_cases same : key = text
  · rw [if_pos (inScan.mpr (congrArg Utf8.ofString same)), if_pos (congrArg some same.symm)]
    rfl
  · rw [if_neg fun scanned => same (Utf8.ofString_injective (inScan.mp scanned)),
      if_neg fun isText => same (Option.some.inj isText).symm]
    rfl

/-- No call changes the registry. -/
theorem registry_run {store : MemStore F} (reachable : Reachable store) (calls : List (Call F)) :
    (store.run calls).registry = store.registry := by
  induction calls generalizing store with
  | nil => rfl
  | cons call rest inductionHypothesis =>
    refine (inductionHypothesis (reachable.step call)).trans ?_
    exact @after_keeps F (fun after => after.registry = store.registry) store
      reachable.consistent.keyed rfl (fun nodes _ => registry_admitted store nodes)
      (fun ids => (retractAll_same ids store).2.2.1) (fun _ same => same) (fun _ _ _ same => same)
      call

/-- After a run that offers only nodes whose keys are free of zero bytes, the lookups by head
and by source answer exactly the stored active nodes with the key, each once. -/
theorem run_lookups_exact (nodeOrder : Hash.Order NodeId) (hasher : Cf → Hash.Order (List UInt8))
    (registry : MorphemeRegistry) {calls : List (Call F)}
    (nulFree : ∀ call ∈ calls, ∀ node ∈ call.offered, node.KeysNulFree registry) {key : String}
    (keyFree : NulFreeText key) :
    let store := (MemStore.empty nodeOrder hasher registry).run calls
    store.AnswersExactly (lookupByPred key)
        (fun node => registry.headName node.predicate.head = key) ∧
      store.AnswersExactly (lookupByDoc key) fun node => node.provenance.sourceKey = key := by
  intro store
  have empty : Reachable (MemStore.empty nodeOrder hasher registry : MemStore F) := .empty _ _ _
  have offered : Along (StoresOnly (Node.KeysNulFree registry))
      (MemStore.empty nodeOrder hasher registry) calls :=
    along_of_mem (fun call member _ _ node offered _ => nulFree call member node offered) _
  have sameRegistry : store.registry = registry :=
    (registry_run empty calls).trans (empty_data nodeOrder hasher registry).2.2.2
  have consistent : store.Consistent := (empty.run calls).consistent
  have plain : store.EveryActive (Node.KeysNulFree store.registry) := by
    rw [sameRegistry]
    exact (run_everyActive_iff _ nodeOrder hasher registry calls).mpr offered calls
      (List.prefix_refl _)
  have heads := answersExactly_indexKey consistent plain (.inl rfl) keyFree
  have sources := answersExactly_indexKey consistent plain (.inr rfl) keyFree
  simp only [Node.indexKey, Option.some.injEq, sameRegistry] at heads sources
  exact ⟨heads, sources⟩

/-- A fact about the system that asserts it. -/
def systemFact : Node Rat := Node.new "n2" ⟨.name "system", [.ent ⟨"A"⟩], []⟩

/-- Of two facts that the system asserts both are found by their source, and the one about the
system by its head. -/
theorem run_lookups_exact_premise :
    (blank.run [.insert premise, .insert systemFact]).AnswersExactly (lookupByPred "system")
        (fun node => blank.registry.headName node.predicate.head = "system") ∧
      (blank.run [.insert premise, .insert systemFact]).AnswersExactly (lookupByDoc "system")
        fun node => node.provenance.sourceKey = "system" := by
  refine run_lookups_exact _ _ _ (fun call member node offered => ?_) (by decide)
  simp only [List.mem_cons, List.not_mem_nil, or_false] at member
  rcases member with rfl | rfl
  · obtain rfl := List.mem_singleton.mp offered
    intro cf text isKey
    cases cf <;> cases isKey <;> decide
  · obtain rfl := List.mem_singleton.mp offered
    intro cf text isKey
    cases cf <;> cases isKey <;> decide

example : (blank.run [.insert premise, .insert systemFact]).nodeAt ⟨"n1"⟩ = some premise ∧
    (blank.run [.insert premise, .insert systemFact]).nodeAt ⟨"n2"⟩ = some systemFact ∧
    premise.provenance.sourceKey = "system" ∧ systemFact.provenance.sourceKey = "system" := by
  decide

end FactumStore

end Factum
