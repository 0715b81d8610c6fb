/-
This file is about the validity index and the lookups by time.

The index lists a node under the bounds of its validity, cut to whole seconds, and
the validity of a stored node never changes. A lookup collects what is listed under
the windows that start no later than the second of the instant, so it misses no
valid node, whatever the fractions of the seconds, and the nodes that it should not
have collected are filtered out.
-/

import Factum.History
import Factum.Library.Buckets

namespace Factum

open Stateful

variable {F : Type}

/-! ### The order of the index -/

instance : Std.LawfulEqCmp validityCmp where
  eq_of_compare := by
    rintro ⟨start, stop⟩ ⟨start', stop'⟩ equal
    simp only [compareLex, compareOn, Ordering.then_eq_eq, compare_eq_iff_eq] at equal
    rw [equal.1, equal.2]

theorem isLE_validityCmp (key bound : Int × Int) :
    (validityCmp key bound).isLE = true ↔
      key.1 < bound.1 ∨ key.1 = bound.1 ∧ key.2 ≤ bound.2 := by
  rw [validityCmp, compareLex, compareOn, compareOn]
  rcases lt_trichotomy key.1 bound.1 with earlier | same | later
  · simp [compare_lt_iff_lt.mpr earlier, earlier]
  · simp [same, Ordering.isLE_iff_ne_gt, compare_gt_iff_gt]
  · simp [compare_gt_iff_gt.mpr later, later.not_gt, later.ne']

/-- An instant has no later second than a later one. -/
theorem DateTime.timestamp_le_of_le {a b : DateTime} (isLe : a.le b = true) :
    a.timestamp ≤ b.timestamp := by
  by_contra after
  have later : compare a.timestamp b.timestamp = .gt := compare_gt_iff_gt.mpr (not_le.mp after)
  rw [le, cmp, later] at isLe
  exact Bool.noConfusion isLe

/-- A validity that holds at an instant is listed no later than the second of the instant. -/
theorem Validity.isLE_indexKey {validity : Validity} {t : DateTime}
    (valid : validity.isValidAt t = true) :
    (validityCmp validity.indexKey (t.timestamp, 2 ^ 63 - 1)).isLE = true := by
  rw [isLE_validityCmp]
  have bounds := t.inRange
  simp only [firstDay, lastDay] at bounds
  cases validity with
  | forever =>
    simp only [indexKey]
    omega
  | window from_ until_ =>
    have started : from_.le t = true := by
      cases until_ with
      | none => exact valid
      | some until_ =>
        rw [isValidAt, Bool.and_eq_true] at valid
        exact valid.1
    have startedBefore : from_.timestamp ≤ t.timestamp := DateTime.timestamp_le_of_le started
    have endsInRange : (until_.map (·.timestamp)).getD (2 ^ 63 - 1) ≤ 2 ^ 63 - 1 := by
      cases until_ with
      | none => exact le_refl _
      | some until_ =>
        have untilBounds := until_.inRange
        simp only [firstDay, lastDay] at untilBounds
        simp only [Option.map_some, Option.getD_some]
        omega
    simp only [indexKey]
    omega

namespace FactumStore

/-- The validity index lists each stored node once, under the key of its validity. -/
def Timed (store : MemStore F) : Prop :=
  ∀ key id, (Buckets.bucket store.byValidity key).count id =
    if (store.nodeAt id).map (·.validity.indexKey) = some key then 1 else 0

/-- What the validity index lists under a key after it took some nodes. -/
theorem bucket_foldl_updateByValidity (nodes : List (Node F)) (key : Int × Int) :
    ∀ byValidity : ValidityIndex,
      Buckets.bucket (nodes.foldl updateByValidity byValidity) key =
        Buckets.bucket byValidity key ++
          (nodes.filter (·.validity.indexKey = key)).map Node.id := by
  induction nodes with
  | nil => exact fun _ => (List.append_nil _).symm
  | cons node rest inductionHypothesis =>
    intro byValidity
    have pushed : updateByValidity byValidity node =
        Buckets.push byValidity node.validity.indexKey node.id := rfl
    rw [List.foldl_cons, inductionHypothesis, pushed, Buckets.bucket_push, List.filter_cons]
    by_cases same : node.validity.indexKey = key
    · rw [if_pos same.symm, if_pos (by simpa using same), same, List.map_cons, List.append_assoc]
      rfl
    · rw [if_neg (Ne.symm same), if_neg (by simpa using same)]

/-- Nodes with pairwise different identifiers are listed once each, under their own keys. -/
theorem count_ids_with_key {nodes : List (Node F)} (distinct : (nodes.map Node.id).Nodup)
    (key : Int × Int) (id : NodeId) :
    ((nodes.filter (·.validity.indexKey = key)).map Node.id).count id =
      if (nodes.find? (·.id == id)).map (·.validity.indexKey) = some key then 1 else 0 := by
  have nodup : ((nodes.filter (·.validity.indexKey = key)).map Node.id).Nodup :=
    distinct.sublist (List.filter_sublist.map Node.id)
  have listed : id ∈ (nodes.filter (·.validity.indexKey = key)).map Node.id ↔
      (nodes.find? (·.id == id)).map (·.validity.indexKey) = some key := by
    simp only [List.mem_map, List.mem_filter, decide_eq_true_eq, Option.map_eq_some_iff,
      find?_id_eq_some distinct]
    exact exists_congr fun node => by tauto
  rw [← if_congr listed rfl rfl]
  split_ifs with member
  · exact List.count_eq_one_of_mem nodup member
  · exact List.count_eq_zero_of_not_mem member

theorem Timed.admitted {store : MemStore F} (timed : store.Timed) {nodes : List (Node F)}
    (accepts : store.Accepts nodes) : (store.admitted nodes).Timed := by
  intro key id
  have index : (store.admitted nodes).byValidity =
      nodes.foldl updateByValidity store.byValidity := by
    rw [FactumStore.admitted, foldl_takeNode]
    rfl
  rw [index, bucket_foldl_updateByValidity, List.count_append, timed,
    count_ids_with_key accepts.distinct, nodeAt_admitted store accepts.distinct]
  cases found : nodes.find? (·.id == id) with
  | none => rfl
  | some node =>
    obtain ⟨member, rfl⟩ := (find?_id_eq_some accepts.distinct id node).mp found
    rw [accepts.fresh node member]
    simp

theorem Timed.retractAll {store : MemStore F} (timed : store.Timed) (keyed : store.Keyed)
    (ids : List NodeId) : (store.retractAll ids).Timed := by
  intro key id
  have sameKey : ((store.retractAll ids).nodeAt id).map (·.validity.indexKey) =
      (store.nodeAt id).map (·.validity.indexKey) := by
    rw [nodeAt_retractAll ids keyed]
    split_ifs
    · rw [Option.map_map]
      rfl
    · rfl
  rw [(retractAll_same ids store).2.1, sameKey, timed]

theorem Timed.after {store : MemStore F} (timed : store.Timed) (keyed : store.Keyed)
    (call : Call F) : (store.after call).Timed :=
  after_keeps keyed timed (fun _ accepts => timed.admitted accepts)
    (fun ids => timed.retractAll keyed ids) (fun _ other => other)
    (fun _ _ _ other => other) call

theorem Reachable.timed {store : MemStore F} (reachable : Reachable store) : store.Timed := by
  induction reachable with
  | empty nodeOrder hasher registry =>
    intro key id
    rw [(empty_data nodeOrder hasher registry).1, MemStore.empty_eq]
    exact congrArg (List.count id) (Buckets.bucket_empty key)
  | step earlier call inductionHypothesis =>
    exact inductionHypothesis.after earlier.consistent.keyed call

/-- A lookup by time lists a node at most once, and every stored node that is valid. -/
theorem count_listedAt {store : MemStore F} (timed : store.Timed) (t : DateTime) (id : NodeId) :
    (listedAt store.byValidity t).count id =
      if ((store.nodeAt id).map (·.validity.indexKey)).any
        (fun key => (validityCmp key (t.timestamp, 2 ^ 63 - 1)).isLE) = true then 1 else 0 :=
  Buckets.count_scan (fun key => timed key id) fun key =>
    (validityCmp key (t.timestamp, 2 ^ 63 - 1)).isLE

/-- A lookup by time over an exact index. -/
theorem lookupValidAt_of_timed {store : MemStore F} (keyed : store.Keyed) (timed : store.Timed)
    (t : DateTime) :
    ∃ found, lookupValidAt t store = .ok found store ∧ (found.map Node.id).Nodup ∧
      ∀ node, node ∈ found ↔ store.nodeAt node.id = some node ∧ node.status = .active ∧
        node.validity.isValidAt t = true := by
  have counted := count_listedAt timed t
  refine ⟨_, lookupValidAt_run store t, ?_, ?_⟩
  · have once : (listedAt store.byValidity t).Nodup := by
      rw [List.nodup_iff_count_le_one]
      intro id
      rw [counted]
      split_ifs <;> omega
    refine once.sublist (List.Sublist.trans ?_ (sublist_active keyed _))
    exact List.filter_sublist.map Node.id
  · intro node
    rw [List.mem_filter, List.mem_filterMap]
    simp only [activeAt_eq_some]
    constructor
    · rintro ⟨⟨id, _, stored, active⟩, valid⟩
      have sameId := keyed id node stored
      exact ⟨by rw [sameId]; exact stored, active, valid⟩
    · rintro ⟨stored, active, valid⟩
      refine ⟨⟨node.id, ?_, stored, active⟩, valid⟩
      rw [← List.count_pos_iff, counted, stored, Option.map_some, Option.any_some,
        if_pos (Validity.isLE_indexKey valid)]
      exact Nat.zero_lt_one

/-- A lookup by time answers exactly the active nodes that are valid at the instant, each
once. -/
theorem lookupValidAt_exact {store : MemStore F} (reachable : Reachable store) (t : DateTime) :
    ∃ found, lookupValidAt t store = .ok found store ∧ (found.map Node.id).Nodup ∧
      ∀ node, node ∈ found ↔ store.nodeAt node.id = some node ∧ node.status = .active ∧
        node.validity.isValidAt t = true :=
  lookupValidAt_of_timed reachable.consistent.keyed reachable.timed t

/-- What is known at the start of 1970 in a store of two timeless facts. -/
theorem lookupValidAt_exact_supportedStore :
    ∃ found, lookupValidAt ⟨0, 0, by decide⟩ supportedStore = .ok found supportedStore ∧
      (found.map Node.id).Nodup ∧
      ∀ node, node ∈ found ↔ supportedStore.nodeAt node.id = some node ∧
        node.status = .active ∧ node.validity.isValidAt ⟨0, 0, by decide⟩ = true :=
  lookupValidAt_exact reachable_supportedStore _

end FactumStore

end Factum
