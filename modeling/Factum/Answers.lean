/-
This file is about the answers of the lookups over the two backends.

The in-memory index lists an identifier once for each mention of a key, and the
sorted map has a key once whatever the number of mentions. A head and a source are
mentioned once by a node, so lookups by head and by document agree; an entity may
be mentioned twice, and then a lookup by it gives the node twice from the one
backend and once from the other. The answers agree throughout a run exactly when
no active node that the run stores mentions an entity twice.
-/

import Factum.Backends
import Factum.Bincode
import Factum.Candidates

namespace Factum

open Stateful Simulation

variable {F : Type}

/-! ### The entities that a node is indexed under -/

mutual

/-- The entities that a term is indexed under, one for each mention. -/
def Term.indexedEntities : Term → List EntityId
  | .ent entity => [entity]
  | .compound ⟨_, args, _⟩ => Term.indexedEntitiesList args
  | .list items => Term.indexedEntitiesList items
  | .var _ => []
  | .lit _ => []

/-- The entities that a list of terms is indexed under. -/
def Term.indexedEntitiesList : List Term → List EntityId
  | [] => []
  | term :: rest => term.indexedEntities ++ Term.indexedEntitiesList rest

end

/-- The entities that a node is indexed under, one for each mention. -/
def Node.indexedEntities (node : Node F) : List EntityId :=
  Term.indexedEntitiesList node.predicate.args ++
    Term.indexedEntitiesList (node.predicate.named.map Prod.snd)

/-- The key of an operation on an index. -/
def WriteOp.keyIn? (cf : Cf) : WriteOp F → Option (List UInt8)
  | .putIndex cf' key _ => if cf' = cf then some key else none
  | _ => none

/-- The keys that a node has in an index, one for each mention. -/
def entryKeys (registry : MorphemeRegistry) (cf : Cf) (node : Node F) : List (List UInt8) :=
  (buildInsertOps registry node).filterMap (WriteOp.keyIn? cf)

mutual

theorem collectEntityIndexOps_eq (nodeId : NodeId) : ∀ term : Term,
    (collectEntityIndexOps nodeId term : List (WriteOp F)) =
      term.indexedEntities.map fun entity =>
        .putIndex .byEntity (encodeIndexKey (Utf8.ofString entity.asStr) nodeId) nodeId
  | .ent _ => rfl
  | .compound ⟨_, args, _⟩ => collectEntityIndexOpsList_eq nodeId args
  | .list items => collectEntityIndexOpsList_eq nodeId items
  | .var _ => rfl
  | .lit _ => rfl

theorem collectEntityIndexOpsList_eq (nodeId : NodeId) : ∀ terms : List Term,
    (collectEntityIndexOpsList nodeId terms : List (WriteOp F)) =
      (Term.indexedEntitiesList terms).map fun entity =>
        .putIndex .byEntity (encodeIndexKey (Utf8.ofString entity.asStr) nodeId) nodeId
  | [] => rfl
  | term :: rest => by
    rw [collectEntityIndexOpsList, Term.indexedEntitiesList, List.map_append,
      collectEntityIndexOps_eq nodeId term, collectEntityIndexOpsList_eq nodeId rest]

end

/-- The keys of a node in the entity index are those of its entities. -/
theorem entryKeys_byEntity (registry : MorphemeRegistry) (node : Node F) :
    entryKeys registry .byEntity node = node.indexedEntities.map fun entity =>
      encodeIndexKey (Utf8.ofString entity.asStr) node.id := by
  simp only [entryKeys, buildInsertOps, collectEntityIndexOpsList_eq, List.filterMap_append,
    List.filterMap_map, Node.indexedEntities, List.map_append]
  simp [WriteOp.keyIn?, Function.comp_def]

/-- In the other indices a node has one key. -/
theorem length_entryKeys_le (registry : MorphemeRegistry) {cf : Cf} (notEntity : cf ≠ .byEntity)
    (node : Node F) : (entryKeys registry cf node).length ≤ 1 := by
  simp only [entryKeys, buildInsertOps, collectEntityIndexOpsList_eq, List.filterMap_append,
    List.filterMap_map]
  cases cf <;> simp [WriteOp.keyIn?, Function.comp_def, List.filterMap_cons] at notEntity ⊢

theorem encodeIndexKey_injective (id : NodeId) {key key' : List UInt8}
    (same : encodeIndexKey key id = encodeIndexKey key' id) : key = key' :=
  List.append_cancel_right same

theorem nodup_entryKeys_byEntity (registry : MorphemeRegistry) (node : Node F) :
    (entryKeys registry .byEntity node).Nodup ↔ node.indexedEntities.Nodup := by
  rw [entryKeys_byEntity]
  refine List.nodup_map_iff fun entity entity' same => ?_
  exact congrArg EntityId.mk (Utf8.ofString_injective (encodeIndexKey_injective node.id same))

/-- A key of a node encodes its identifier. -/
theorem encodes_of_mem_entryKeys {registry : MorphemeRegistry} {cf : Cf} {node : Node F}
    {key : List UInt8} (member : key ∈ entryKeys registry cf node) :
    ∃ shortKey, key = encodeIndexKey shortKey node.id := by
  obtain ⟨op, isOp, isKey⟩ := List.mem_filterMap.mp member
  rcases buildInsertOps_shape registry node op isOp with rfl | ⟨cf', shortKey, _, rfl⟩
  · exact absurd isKey (by simp [WriteOp.keyIn?])
  · simp only [WriteOp.keyIn?, Option.ite_none_right_eq_some, Option.some.injEq] at isKey
    exact ⟨shortKey, isKey.2.symm⟩

/-- A function of the operations that keeps those with a key of some kind keeps as many as
there are such keys. -/
theorem length_filterMap_ops {cf : Cf} {f : WriteOp F → Option NodeId} {kind : List UInt8 → Bool}
    (agrees : ∀ op : WriteOp F, (f op).isSome = (op.keyIn? cf).any kind)
    (ops : List (WriteOp F)) :
    (ops.filterMap f).length = (ops.filterMap (WriteOp.keyIn? cf)).countP kind := by
  induction ops with
  | nil => rfl
  | cons op rest inductionHypothesis =>
    have first := agrees op
    cases isKey : op.keyIn? cf with
    | none =>
      rw [isKey, Option.any_none] at first
      rw [List.filterMap_cons_none
          (Option.isNone_iff_eq_none.mp (by simp [← Option.not_isSome, first])),
        List.filterMap_cons_none isKey, inductionHypothesis]
    | some key =>
      rw [isKey, Option.any_some] at first
      rw [List.filterMap_cons_some isKey, List.countP_cons, ← inductionHypothesis, ← first]
      cases result : f op with
      | none => rw [List.filterMap_cons_none result]; rfl
      | some id => rw [List.filterMap_cons_some result]; rfl

/-- How often a scan lists a node is how many of its keys are in the scan. -/
theorem length_scanEntries (registry : MorphemeRegistry) (cf : Cf) (key : List UInt8)
    (node : Node F) : (scanEntries registry cf key node).length =
      (entryKeys registry cf node).countP (encodeIndexPrefix key).isPrefixOf := by
  refine length_filterMap_ops (fun op => ?_) _
  cases op with
  | putIndex cf' key' nodeId =>
    by_cases sameCf : cf' = cf
    · by_cases inScan : (encodeIndexPrefix key).isPrefixOf key' = true <;>
        simp [WriteOp.scanned?, WriteOp.keyIn?, sameCf, inScan]
    · simp [WriteOp.scanned?, WriteOp.keyIn?, sameCf]
  | putNode _ => rfl
  | deleteNode _ => rfl
  | deleteIndex _ _ _ => rfl

/-- How often an index lists a node under a key is how often the node has the key. -/
theorem length_indexEntries (registry : MorphemeRegistry) (cf : Cf) (key : List UInt8)
    (node : Node F) : (indexEntries registry cf key node).length =
      (entryKeys registry cf node).count key := by
  refine length_filterMap_ops (fun op => ?_) _
  cases op with
  | putIndex cf' key' nodeId =>
    by_cases sameCf : cf' = cf
    · by_cases sameKey : key' = key <;> simp [WriteOp.entryAt?, WriteOp.keyIn?, sameCf, sameKey]
    · simp [WriteOp.entryAt?, WriteOp.keyIn?, sameCf]
  | putNode _ => rfl
  | deleteNode _ => rfl
  | deleteIndex _ _ _ => rfl

/-! ### Scans of the sorted map -/

/-- An identifier without a zero byte is what its index keys end in. -/
theorem decodeNodeIdFromIndex_encodeIndexKey (key : List UInt8) {id : NodeId}
    (nulFree : (0 : UInt8) ∉ Utf8.ofString id.asStr) :
    decodeNodeIdFromIndex (encodeIndexKey key id) = some id := by
  have ending : ((encodeIndexKey key id).reverse.takeWhile (· != 0)).reverse =
      Utf8.ofString id.asStr := by
    have noZero : ∀ byte ∈ (Utf8.ofString id.asStr).reverse, (byte != 0) = true := by
      intro byte member
      rw [bne_iff_ne]
      rintro rfl
      exact nulFree (List.mem_reverse.mp member)
    rw [encodeIndexKey, List.reverse_append, List.reverse_cons, List.append_assoc,
      List.takeWhile_append_of_pos noZero]
    simp
  rw [decodeNodeIdFromIndex, if_pos (by simp [encodeIndexKey]), ending, Utf8.toString?_ofString]
  rfl

/-- A scan of the sorted map decodes the keys of the column that start with the encoded
key. -/
theorem scanIndex_eq (backend : RocksDBBackend F) (cf : Cf) (key : List UInt8) :
    backend.scanIndex cf key =
      (((backend.columns cf).toList.map Prod.fst).filter
        (encodeIndexPrefix key).isPrefixOf).filterMap decodeNodeIdFromIndex := by
  have sorted : (backend.columns cf).toList.Pairwise fun a b => compare a.1 b.1 = .lt :=
    Std.TreeMap.ordered_keys_toList
  show (List.takeWhile _ (List.dropWhile _ (backend.columns cf).toList)).filterMap _ = _
  rw [PrefixScan.seek_eq_filter (encodeIndexPrefix key) sorted, List.filter_map,
    List.filterMap_map]
  rfl

namespace FactumStore

/-- Whether the identifiers of the stored nodes are free of zero bytes. -/
def NulFree (store : MemStore F) : Prop :=
  ∀ id node, store.nodeAt id = some node → (0 : UInt8) ∉ Utf8.ofString id.asStr

/-- The keys of an index are those of the stored nodes. -/
theorem mem_column_iff {codec : NodeCodec F} {mem : MemStore F} {rocks : RocksStore F}
    (agree : StoresAgree codec mem rocks) (consistent : mem.Consistent) {cf : Cf}
    (isIndex : cf ≠ .nodes) (key : List UInt8) :
    key ∈ (rocks.backend.columns cf).toList.map Prod.fst ↔
      ∃ id node, mem.nodeAt id = some node ∧ key ∈ entryKeys mem.registry cf node := by
  rw [Std.TreeMap.map_fst_toList_eq_keys, Std.TreeMap.mem_keys,
    agree.backend.keys cf key isIndex]
  have index := consistent.index cf key
  unfold idsAt at index
  constructor
  · intro listed
    obtain ⟨id, member⟩ := List.exists_mem_of_ne_nil _ listed
    have positive := List.count_pos_iff.mpr member
    rw [index] at positive
    cases stored : mem.nodeAt id with
    | none =>
      rw [stored] at positive
      exact absurd positive (by simp)
    | some node =>
      rw [stored, Option.map_some, Option.getD_some, length_indexEntries] at positive
      exact ⟨id, node, stored, List.count_pos_iff.mp positive⟩
  · rintro ⟨id, node, stored, hasKey⟩ empty
    have count := index id
    rw [empty, stored, Option.map_some, Option.getD_some, length_indexEntries] at count
    exact absurd (List.count_pos_iff.mpr hasKey) (by simp [← count])

/-- A scan of the sorted map lists a node once for each different key that it has in the
scan. -/
theorem count_scanIndex {codec : NodeCodec F} {mem : MemStore F} {rocks : RocksStore F}
    (agree : StoresAgree codec mem rocks) (consistent : mem.Consistent) (nulFree : mem.NulFree)
    {cf : Cf} (isIndex : cf ≠ .nodes) (key : List UInt8) (id : NodeId) :
    (rocks.backend.scanIndex cf key).count id =
      ((mem.nodeAt id).map fun node =>
        (entryKeys mem.registry cf node).dedup.countP (encodeIndexPrefix key).isPrefixOf).getD
          0 := by
  -- a key of a stored node decodes to the identifier of the node
  have decodes : ∀ id' node other, mem.nodeAt id' = some node →
      other ∈ entryKeys mem.registry cf node → decodeNodeIdFromIndex other = some id' := by
    intro id' node other stored hasKey
    obtain ⟨shortKey, rfl⟩ := encodes_of_mem_entryKeys hasKey
    have keyed := consistent.keyed id' node stored
    rw [keyed]
    exact decodeNodeIdFromIndex_encodeIndexKey shortKey (nulFree id' node stored)
  have distinct : ((rocks.backend.columns cf).toList.map Prod.fst).Nodup := by
    rw [Std.TreeMap.map_fst_toList_eq_keys]
    exact Std.TreeMap.nodup_keys
  rw [scanIndex_eq, List.count_filterMap, List.countP_filter, List.countP_eq_length_filter]
  cases stored : mem.nodeAt id with
  | none =>
    rw [List.filter_eq_nil_iff.mpr]
    · rfl
    · intro other member both
      obtain ⟨id', node, storedOther, hasKey⟩ :=
        (mem_column_iff agree consistent isIndex other).mp member
      rw [decodes id' node other storedOther hasKey] at both
      have sameId : id' = id := by simpa using (Bool.and_eq_true_iff.mp both).1
      rw [sameId, stored] at storedOther
      exact absurd storedOther (by simp)
  | some node =>
    rw [Option.map_some, Option.getD_some, List.countP_eq_length_filter]
    refine List.Perm.length_eq ((List.perm_ext_iff_of_nodup (distinct.filter _)
      ((List.nodup_dedup _).filter _)).mpr fun other => ?_)
    rw [List.mem_filter, List.mem_filter, mem_column_iff agree consistent isIndex,
      List.mem_dedup, Bool.and_eq_true, beq_iff_eq]
    constructor
    · rintro ⟨⟨id', node', storedOther, hasKey⟩, decoded, inScan⟩
      rw [decodes id' node' other storedOther hasKey, Option.some.injEq] at decoded
      rw [decoded, stored, Option.some.injEq] at storedOther
      exact ⟨storedOther ▸ hasKey, inScan⟩
    · rintro ⟨hasKey, inScan⟩
      exact ⟨⟨id, node, stored, hasKey⟩, decodes id node other stored hasKey, inScan⟩

/-! ### Answers -/

/-- Two answers with the same nodes, each as often. -/
def SameMultiset (left right : Except (Stop StoreError) (List (Node F))) : Prop :=
  ∃ nodes nodes', left = .ok nodes ∧ right = .ok nodes' ∧ nodes.Perm nodes'

/-- Whether the two stores answer alike: the same nodes, and the same from every lookup. -/
structure SameAnswers (mem : MemStore F) (rocks : RocksStore F) : Prop where
  nodes : ∀ id, answer (getById id) mem = answer (getById id) rocks
  byEntity : ∀ entity,
    SameMultiset (answer (lookupByEntity entity) mem) (answer (lookupByEntity entity) rocks)
  byPred : ∀ head,
    SameMultiset (answer (lookupByPred head) mem) (answer (lookupByPred head) rocks)
  byDoc : ∀ doc, SameMultiset (answer (lookupByDoc doc) mem) (answer (lookupByDoc doc) rocks)

/-- Counting the different items of a kind gives less exactly when one of the kind is
repeated. -/
theorem countP_dedup_eq_iff {α : Type} [DecidableEq α] (kind : α → Bool) (items : List α) :
    items.countP kind = items.dedup.countP kind ↔ (items.filter kind).Nodup := by
  rw [List.countP_eq_length_filter, List.countP_eq_length_filter]
  have sublist : (items.dedup.filter kind).Sublist (items.filter kind) :=
    (List.dedup_sublist items).filter kind
  constructor
  · intro sameLength
    rw [← sublist.eq_of_length sameLength.symm]
    exact (List.nodup_dedup items).filter kind
  · intro nodup
    refine List.Perm.length_eq ((List.perm_ext_iff_of_nodup nodup
      ((List.nodup_dedup items).filter kind)).mpr fun item => ?_)
    rw [List.mem_filter, List.mem_filter, List.mem_dedup]

/-- Looking up listed identifiers gives the same values as often exactly when those that
have a value are listed as often. -/
theorem filterMap_perm_iff {α β : Type} [DecidableEq α] {find : α → Option β} {key : β → α}
    (keyed : ∀ a b, find a = some b → key b = a) (left right : List α) :
    (left.filterMap find).Perm (right.filterMap find) ↔
      ∀ a, (find a).isSome = true → left.count a = right.count a := by
  have keys := map_filterMap_eq_filter keyed
  have lookedUp : ∀ items : List α,
      (items.filter fun a => (find a).isSome).filterMap find = items.filterMap find := by
    intro items
    rw [List.filterMap_filter]
    refine List.filterMap_congr fun a _ => ?_
    cases find a <;> rfl
  have counted : ∀ (items : List α) (a : α), (find a).isSome = true →
      (items.filter fun a => (find a).isSome).count a = items.count a :=
    fun items a found => List.count_filter (p := fun a => (find a).isSome) found
  constructor
  · intro same a found
    have mapped := (same.map key).count_eq a
    rwa [keys, keys, counted left a found, counted right a found] at mapped
  · intro counts
    have filtered : (left.filter fun a => (find a).isSome).Perm
        (right.filter fun a => (find a).isSome) := by
      rw [List.perm_iff_count]
      intro a
      by_cases found : (find a).isSome = true
      · rw [counted left a found, counted right a found, counts a found]
      · have absent : ∀ items : List α, (items.filter fun a => (find a).isSome).count a = 0 := by
          intro items
          rw [List.count_eq_zero, List.mem_filter]
          exact fun member => found member.2
        rw [absent, absent]
    rw [← lookedUp left, ← lookedUp right]
    exact filtered.filterMap find

theorem activeAt_isSome_iff (store : MemStore F) (id : NodeId) :
    (store.activeAt id).isSome = true ↔
      ∃ node, store.nodeAt id = some node ∧ node.status = .active := by
  rw [Option.isSome_iff_exists]
  exact exists_congr fun node => activeAt_eq_some store id node

/-- A lookup answers the same from both stores exactly when no active node has one of its
keys twice in the scan. -/
theorem sameMultiset_lookupIndex_iff {codec : NodeCodec F} {mem : MemStore F}
    {rocks : RocksStore F} (agree : StoresAgree codec mem rocks) (consistent : mem.Consistent)
    (nulFree : mem.NulFree) {cf : Cf} (isIndex : cf ≠ .nodes) (key : String) :
    SameMultiset (answer (lookupIndex cf key) mem) (answer (lookupIndex cf key) rocks) ↔
      ∀ id node, mem.nodeAt id = some node → node.status = .active →
        ((entryKeys mem.registry cf node).filter
          (encodeIndexPrefix (Utf8.ofString key)).isPrefixOf).Nodup := by
  have left : answer (lookupIndex cf key) mem =
      .ok ((mem.scan cf (Utf8.ofString key)).filterMap mem.activeAt) :=
    answer_ok (lookupIndex_run mem cf key)
  have right : answer (lookupIndex cf key) rocks =
      .ok ((rocks.backend.scanIndex cf (Utf8.ofString key)).filterMap mem.activeAt) := by
    have scanned : answer (lookupIndex cf key) rocks =
        answer (resolveNodes (rocks.backend.scanIndex cf (Utf8.ofString key))) rocks := rfl
    rw [scanned, ← (agree_resolveNodes callsAgree_backends _).answer agree]
    exact answer_ok (resolveNodes_run mem _)
  have counts : SameMultiset (answer (lookupIndex cf key) mem)
      (answer (lookupIndex cf key) rocks) ↔
        ∀ id, (mem.activeAt id).isSome = true → (mem.scan cf (Utf8.ofString key)).count id =
          (rocks.backend.scanIndex cf (Utf8.ofString key)).count id := by
    rw [left, right, ← filterMap_perm_iff fun id node found =>
      (consistent.keyed id node ((activeAt_eq_some mem id node).mp found).1)]
    constructor
    · rintro ⟨nodes, nodes', isLeft, isRight, same⟩
      obtain rfl := Except.ok.inj isLeft
      obtain rfl := Except.ok.inj isRight
      exact same
    · exact fun same => ⟨_, _, rfl, rfl, same⟩
  rw [counts]
  refine forall_congr' fun id => ?_
  rw [activeAt_isSome_iff]
  constructor
  · intro same node stored active
    have count := same ⟨node, stored, active⟩
    rw [count_scan consistent, count_scanIndex agree consistent nulFree isIndex, stored,
      Option.map_some, Option.getD_some, length_scanEntries] at count
    exact (countP_dedup_eq_iff _ _).mp count
  · rintro distinct ⟨node, stored, active⟩
    rw [count_scan consistent, count_scanIndex agree consistent nulFree isIndex, stored,
      Option.map_some, Option.getD_some, length_scanEntries]
    exact (countP_dedup_eq_iff _ _).mpr (distinct node stored active)

/-- Whether no active node mentions an entity twice. -/
def DistinctMentions (store : MemStore F) : Prop :=
  ∀ id node, store.nodeAt id = some node → node.status = .active → node.indexedEntities.Nodup

/-- The stores answer alike exactly when no active node mentions an entity twice. -/
theorem sameAnswers_iff {codec : NodeCodec F} {mem : MemStore F} {rocks : RocksStore F}
    (agree : StoresAgree codec mem rocks) (consistent : mem.Consistent)
    (nulFree : mem.NulFree) : SameAnswers mem rocks ↔ mem.DistinctMentions := by
  have lookup := fun {cf : Cf} (isIndex : cf ≠ .nodes) =>
    sameMultiset_lookupIndex_iff agree consistent nulFree isIndex
  constructor
  · intro same id node stored active
    rw [← nodup_entryKeys_byEntity mem.registry, List.nodup_iff_count_le_one]
    intro key
    by_cases hasKey : key ∈ entryKeys mem.registry .byEntity node
    · rw [entryKeys_byEntity] at hasKey
      obtain ⟨entity, _, rfl⟩ := List.mem_map.mp hasKey
      -- the lookup by the entity scans the key
      have distinct := (lookup (by decide) entity.asStr).mp (same.byEntity entity) id node stored
        active
      have inScan := encodeIndexPrefix_isPrefixOf (Utf8.ofString entity.asStr) node.id
      have once := List.nodup_iff_count_le_one.mp distinct
        (encodeIndexKey (Utf8.ofString entity.asStr) node.id)
      rwa [List.count_filter inScan] at once
    · rw [List.count_eq_zero_of_not_mem hasKey]
      exact Nat.zero_le 1
  · intro distinct
    have single : ∀ {cf : Cf}, cf ≠ .byEntity → ∀ (node : Node F) (kind : List UInt8 → Bool),
        ((entryKeys mem.registry cf node).filter kind).Nodup := by
      intro cf notEntity node kind
      have short := length_entryKeys_le mem.registry notEntity node
      refine List.Nodup.filter _ ?_
      rw [List.nodup_iff_count_le_one]
      exact fun key => le_trans List.count_le_length short
    refine ⟨fun id => (agree_getById callsAgree_backends id).answer agree, fun entity => ?_,
      fun head => ?_, fun doc => ?_⟩
    · refine (lookup (by decide) entity.asStr).mpr fun id node stored active => ?_
      exact ((nodup_entryKeys_byEntity _ node).mpr (distinct id node stored active)).filter _
    · exact (lookup (by decide) head).mpr fun _ node _ _ => single (by decide) node _
    · exact (lookup (by decide) doc).mpr fun _ node _ _ => single (by decide) node _

/-! ### Runs over both backends -/

/-- A call that stores no active node which mentions an entity twice. -/
def StepDistinct (store : MemStore F) (call : Call F) : Prop :=
  store.Accepts call.offered → ∀ node ∈ call.offered, node.status = .active →
    node.indexedEntities.Nodup

/-- A call that offers no identifier with a zero byte. -/
def OffersNulFree (call : Call F) : Prop :=
  ∀ node ∈ call.offered, (0 : UInt8) ∉ Utf8.ofString node.id.asStr

theorem NulFree.congr {store other : MemStore F} (nulFree : store.NulFree)
    (same : SameData store other) : other.NulFree := by
  intro id node stored
  rw [same.nodeAt] at stored
  exact nulFree id node stored

theorem NulFree.after {store : MemStore F} (nulFree : store.NulFree)
    (consistent : store.Consistent) {call : Call F} (offers : OffersNulFree call) :
    (store.after call).NulFree := by
  rcases after_cases consistent.keyed call with
    same | ⟨accepts, same⟩ | ⟨id, maxNodes, _, _, same⟩
  · exact nulFree.congr same
  · refine NulFree.congr (fun id node stored => ?_) same
    rcases (nodeAt_admitted_eq_some accepts id node).mp stored with ⟨member, rfl⟩ | old
    · exact offers node member
    · exact nulFree id node old
  · refine NulFree.congr (fun other node stored => ?_) same
    rw [nodeAt_retractAll _ consistent.keyed] at stored
    split_ifs at stored
    · obtain ⟨before, storedBefore, _⟩ := Option.map_eq_some_iff.mp stored
      exact nulFree other before storedBefore
    · exact nulFree other node stored

theorem NulFree.run : ∀ (calls : List (Call F)) {store : MemStore F}, store.NulFree →
    store.Consistent → (∀ call ∈ calls, OffersNulFree call) → (store.run calls).NulFree := by
  intro calls
  induction calls with
  | nil => exact fun nulFree _ _ => nulFree
  | cons call rest inductionHypothesis =>
    intro store nulFree consistent offers
    refine inductionHypothesis (nulFree.after consistent (offers call List.mem_cons_self))
      (consistent.after call) fun other member => offers other (List.mem_cons_of_mem _ member)

/-- The backends agree on a run, in every outcome and after every call in every answer,
exactly when no call stores an active node that mentions an entity twice. -/
theorem run_agrees_iff {codec : NodeCodec F} (nodeOrder : Hash.Order NodeId)
    (hasher : Cf → Hash.Order (List UInt8)) (registry : MorphemeRegistry) (calls : List (Call F))
    (lossless : ∀ call ∈ calls, ∀ node ∈ call.offered, codec.Lossless node)
    (nulFree : ∀ call ∈ calls, OffersNulFree call) :
    (outcomes (MemStore.empty nodeOrder hasher registry) calls =
          outcomes (RocksStore.empty codec registry) calls ∧
        ∀ early, early <+: calls →
          SameAnswers ((MemStore.empty nodeOrder hasher registry).run early)
            ((RocksStore.empty codec registry).run early)) ↔
      Along StepDistinct (MemStore.empty nodeOrder hasher registry) calls := by
  have agree : StoresAgree codec (MemStore.empty nodeOrder hasher registry)
      (RocksStore.empty codec registry) := storesAgree_empty nodeOrder hasher registry
  have consistent := consistent_empty (F := F) nodeOrder hasher registry
  have nulFreeEmpty : (MemStore.empty nodeOrder hasher registry : MemStore F).NulFree := by
    intro id node stored
    rw [(empty_data nodeOrder hasher registry).1] at stored
    exact absurd stored (by simp)
  -- after each early part of the run, answers agree exactly when the mentions are distinct
  have answersIff : ∀ early, early <+: calls →
      (SameAnswers ((MemStore.empty nodeOrder hasher registry).run early)
          ((RocksStore.empty codec registry).run early) ↔
        ((MemStore.empty nodeOrder hasher registry : MemStore F).run early).DistinctMentions) := by
    intro early isEarly
    have reachable := (Reachable.empty (F := F) nodeOrder hasher registry).run early
    exact sameAnswers_iff
      (agree_run callsAgree_backends early agree fun call member =>
        lossless call (isEarly.subset member)).2
      reachable.consistent
      (NulFree.run early nulFreeEmpty consistent fun call member =>
        nulFree call (isEarly.subset member))
  refine Iff.trans ?_ (run_everyActive_iff (fun node => node.indexedEntities.Nodup) nodeOrder
    hasher registry calls)
  constructor
  · rintro ⟨_, same⟩ early isEarly
    exact (answersIff early isEarly).mp (same early isEarly)
  · intro distinct
    exact ⟨(agree_run callsAgree_backends calls agree lossless).1, fun early isEarly =>
      (answersIff early isEarly).mpr (distinct early isEarly)⟩

/-! ### A fact that mentions an entity twice -/

/-- A fact about one entity in both of its places. -/
def twice : Node UInt32 :=
  fact "n1" ⟨.name "same-as", [.ent ⟨"A"⟩, .ent ⟨"A"⟩], []⟩ (some "checked")

/-- An empty in-memory store of numbers as their bits. -/
def memStore : MemStore UInt32 := MemStore.empty (.asStored _) (fun _ => .asStored _) .new

/-- An empty persistent store of numbers as their bits. -/
def rocksStore : RocksStore UInt32 := RocksStore.empty (.bincode .raw) .new

theorem lossless_twice : (NodeCodec.bincode .raw).Lossless twice :=
  ⟨⟨_, rfl, RocksDBBackend.deserializeNode_bincode .raw twice (by decide +kernel)⟩,
    ⟨_, rfl, RocksDBBackend.deserializeNode_bincode .raw twice.retract (by decide +kernel)⟩⟩

/-- A lookup by the entity of the fact gives it twice from the one store and once from the
other. -/
theorem run_disagrees_twice :
    (∀ node ∈ (Call.insert twice).offered, (NodeCodec.bincode .raw).Lossless node) ∧
    OffersNulFree (.insert twice) ∧
    answer (lookupByEntity ⟨"A"⟩) (memStore.run [.insert twice]) = .ok [twice, twice] ∧
    answer (lookupByEntity ⟨"A"⟩) (rocksStore.run [.insert twice]) = .ok [twice] := by
  refine ⟨fun node member => ?_, fun node member => ?_, ?_, ?_⟩
  · rw [List.mem_singleton.mp member]
    exact lossless_twice
  · rw [List.mem_singleton.mp member]
    decide
  · decide
  · decide +kernel

/-- The runs of the fact and its retraction. -/
theorem run_agrees_iff_twice :
    (outcomes memStore [.insert twice, .retractWithLimit ⟨"n1"⟩ 10] =
          outcomes rocksStore [.insert twice, .retractWithLimit ⟨"n1"⟩ 10] ∧
        ∀ early, early <+: [.insert twice, .retractWithLimit ⟨"n1"⟩ 10] →
          SameAnswers (memStore.run early) (rocksStore.run early)) ↔
      Along StepDistinct memStore [.insert twice, .retractWithLimit ⟨"n1"⟩ 10] := by
  refine run_agrees_iff _ _ _ _ (fun call member => ?_) fun call member => ?_
  · rcases List.mem_pair.mp member with rfl | rfl
    · intro node isNode
      rw [List.mem_singleton.mp isNode]
      exact lossless_twice
    · exact fun node isNode => absurd isNode List.not_mem_nil
  · rcases List.mem_pair.mp member with rfl | rfl
    · intro node isNode
      rw [List.mem_singleton.mp isNode]
      decide
    · exact fun node isNode => absurd isNode List.not_mem_nil

end FactumStore

end Factum
