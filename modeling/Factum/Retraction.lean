/-
This file is about what a retraction means.

Retracting a node withdraws everything that was derived from it. The cascade does
so exactly: over a consistent store its edges are the dependencies of the stored
nodes, so it retracts the least set that contains the root and every active
derived node that depends on a member, cut at the limit. Two consequences follow
that the audit story needs and the code only partly delivers: a cascade that was
cut cannot be resumed from its root, because the root no longer is live, and a
conclusion can stay active on a retracted premise when it names the premise only
as its source or is inserted after the premise was withdrawn.
-/

import Factum.Runs

namespace Factum

open Stateful

variable {F : Type}

namespace FactumStore

/-! ### The full cascade of a node -/

/-- The sets that contain a node and every stored active derived node that depends on a
member. -/
def CascadeClosed (store : MemStore F) (root : NodeId) : Set (Set NodeId) :=
  {C | root ∈ C ∧ ∀ id node, store.nodeAt id = some node → node.isActiveDerived = true →
    (∃ dep ∈ C, dep ∈ node.deps) → id ∈ C}

/-- The full cascade of a node: what the traversal would mark without a limit. -/
def fullCascade (store : MemStore F) (root : NodeId) : Set NodeId :=
  Marking.closure store.dependents store.isSupported root

theorem edge_iff {store : MemStore F} (consistent : store.Consistent) (dep id : NodeId) :
    Marking.Edge store.dependents store.isSupported dep id ↔
      ∃ node, store.nodeAt id = some node ∧ node.isActiveDerived = true ∧ dep ∈ node.deps := by
  unfold Marking.Edge
  rw [consistent.dependents]
  constructor
  · rintro ⟨⟨node, stored, named⟩, supported⟩
    rw [isSupported_of_stored stored] at supported
    exact ⟨node, stored, supported, named⟩
  · rintro ⟨node, stored, activeDerived, named⟩
    exact ⟨⟨node, stored, named⟩, by rwa [isSupported_of_stored stored]⟩

/-- The full cascade is the least closed set. -/
theorem fullCascade_isLeast {store : MemStore F} (consistent : store.Consistent)
    (root : NodeId) : IsLeast (store.CascadeClosed root) (store.fullCascade root) := by
  constructor
  · refine ⟨.refl, ?_⟩
    rintro id node stored activeDerived ⟨dep, path, named⟩
    exact .tail path ((edge_iff consistent dep id).mpr ⟨node, stored, activeDerived, named⟩)
  · rintro C ⟨hasRoot, closed⟩ id path
    induction path with
    | refl => exact hasRoot
    | tail _ edge member =>
      obtain ⟨node, stored, activeDerived, named⟩ := (edge_iff consistent _ _).mp edge
      exact closed _ node stored activeDerived ⟨_, member, named⟩

/-- Everything in the full cascade but the root is stored, derived and active. -/
theorem exists_of_mem_fullCascade {store : MemStore F} {root id : NodeId}
    (member : id ∈ store.fullCascade root) (notRoot : id ≠ root) :
    ∃ node, store.nodeAt id = some node ∧ node.isActiveDerived = true := by
  rcases Relation.ReflTransGen.cases_tail member with same | ⟨_, _, edge⟩
  · exact absurd same.symm (Ne.symm notRoot)
  · exact exists_of_isSupported edge.2

theorem fullCascade_finite {store : MemStore F} {root : NodeId} {node : Node F}
    (stored : store.nodeAt root = some node) : (store.fullCascade root).Finite := by
  refine Set.Finite.subset store.backend.nodes.keys.finite_toSet fun id member => ?_
  have isStored : ∃ node, store.nodeAt id = some node := by
    by_cases isRoot : id = root
    · exact ⟨node, isRoot ▸ stored⟩
    · obtain ⟨node, storedId, _⟩ := exists_of_mem_fullCascade member isRoot
      exact ⟨node, storedId⟩
  exact (Hash.Map.mem_keys_iff _ id).mpr (Option.isSome_iff_exists.mpr isStored)

theorem cascadeTrace_subset (store : MemStore F) (id : NodeId) {maxNodes : Nat}
    (positive : 0 < maxNodes) :
    ∀ other ∈ (store.cascadeTrace id maxNodes).marked, other ∈ store.fullCascade id :=
  Marking.visit_subset store.dependents store.isSupported id positive (Nat.le_succ _)

theorem length_cascadeTrace (store : MemStore F) {id : NodeId} {node : Node F}
    (stored : store.nodeAt id = some node) {maxNodes : Nat} (positive : 0 < maxNodes) :
    (store.cascadeTrace id maxNodes).marked.length =
      min maxNodes (store.fullCascade id).ncard :=
  Marking.length_visit store.dependents store.isSupported id positive (Nat.le_succ _)
    (fullCascade_finite stored)

/-- The cascade is cut exactly when the full cascade has more nodes than the limit. -/
theorem cascadeTrace_truncated_iff (store : MemStore F) {id : NodeId} {node : Node F}
    (stored : store.nodeAt id = some node) {maxNodes : Nat} (positive : 0 < maxNodes) :
    (store.cascadeTrace id maxNodes).truncated = true ↔
      maxNodes < (store.fullCascade id).ncard :=
  Marking.truncated_iff store.dependents store.isSupported id positive (Nat.le_succ _)
    (fullCascade_finite stored)

/-- A cascade that was not cut marks the full cascade. -/
theorem mem_cascadeTrace_iff (store : MemStore F) {id : NodeId} {maxNodes : Nat}
    (positive : 0 < maxNodes) (complete : (store.cascadeTrace id maxNodes).truncated = false)
    (other : NodeId) :
    other ∈ (store.cascadeTrace id maxNodes).marked ↔ other ∈ store.fullCascade id :=
  ⟨store.cascadeTrace_subset id positive other,
    Marking.closure_subset_visit store.dependents store.isSupported id positive (Nat.le_succ _)
      complete other⟩

/-- The cascade is exact: it retracts the least closed set, each node once and the root
first, cut at the limit, and changes nothing else. -/
theorem retractWithLimit_exact {store : MemStore F} (reachable : Reachable store) {id : NodeId}
    {node : Node F} (stored : store.nodeAt id = some node) (live : node.status ≠ .retracted)
    {maxNodes : Nat} (positive : 1 ≤ maxNodes) :
    ∃ (C : Set NodeId) (result : RetractResult) (final : MemStore F),
      IsLeast (store.CascadeClosed id) C ∧ C.Finite ∧
      retractWithLimit id maxNodes store = .ok result final ∧
      result.retracted.head? = some id ∧
      result.retracted.Nodup ∧
      (∀ other ∈ result.retracted, other ∈ C) ∧
      result.retracted.length = min maxNodes C.ncard ∧
      (result.truncated = true ↔ maxNodes < C.ncard) ∧
      (∀ other ∈ result.retracted, ∃ before, store.nodeAt other = some before ∧
        before.status ≠ .retracted) ∧
      ∀ other, final.nodeAt other =
        if other ∈ result.retracted then (store.nodeAt other).map Node.retract
        else store.nodeAt other := by
  have consistent := reachable.consistent
  have finite := fullCascade_finite stored
  obtain ⟨depth, ran⟩ := retractWithLimit_run consistent.keyed stored live positive
  refine ⟨store.fullCascade id, _, _, fullCascade_isLeast consistent id, finite, ran,
    store.head_cascadeTrace id maxNodes, (store.cascadeTrace_run id positive).nodup,
    store.cascadeTrace_subset id positive, store.length_cascadeTrace stored positive,
    store.cascadeTrace_truncated_iff stored positive, ?_, ?_⟩
  · intro other member
    by_cases isRoot : other = id
    · exact ⟨node, isRoot ▸ stored, live⟩
    · obtain ⟨before, storedOther, activeDerived⟩ :=
        exists_of_mem_fullCascade (store.cascadeTrace_subset id positive other member) isRoot
      refine ⟨before, storedOther, fun retracted => ?_⟩
      simp [Node.isActiveDerived, retracted] at activeDerived
  · exact fun other => nodeAt_retractAll _ consistent.keyed other

/-! ### A premise and two conclusions -/

/-- A fact without support. -/
def premise : Node Rat := Node.new "n1" ⟨.name "located-in", [.ent ⟨"A"⟩, .ent ⟨"B"⟩], []⟩

/-- A fact derived from the premise that lists it as a dependency. -/
def conclusion : Node Rat :=
  { Node.new "n2" ⟨.name "part-of", [.ent ⟨"A"⟩, .ent ⟨"B"⟩], []⟩ with
    provenance := .derived ⟨"n1"⟩ ⟨"r1"⟩
    deps := [⟨"n1"⟩] }

/-- A fact derived from the premise that names it only as its source. -/
def looseConclusion : Node Rat :=
  { conclusion with
    id := ⟨"n3"⟩
    deps := [] }

/-- An empty store of exact numbers. -/
def blank : MemStore Rat := MemStore.empty (.asStored _) (fun _ => .asStored _) .new

/-- The store with the premise and its conclusion. -/
def supportedStore : MemStore Rat := blank.run [.insert premise, .insert conclusion]

theorem reachable_supportedStore : Reachable supportedStore := (Reachable.empty _ _ _).run _

theorem nodeAt_supportedStore : supportedStore.nodeAt ⟨"n1"⟩ = some premise := by decide

/-- Retracting the premise under a limit of one node. -/
theorem retractWithLimit_exact_premise :
    ∃ (C : Set NodeId) (result : RetractResult) (final : MemStore Rat),
      IsLeast (supportedStore.CascadeClosed ⟨"n1"⟩) C ∧ C.Finite ∧
      retractWithLimit ⟨"n1"⟩ 1 supportedStore = .ok result final ∧
      result.retracted.head? = some ⟨"n1"⟩ ∧
      result.retracted.Nodup ∧
      (∀ other ∈ result.retracted, other ∈ C) ∧
      result.retracted.length = min 1 C.ncard ∧
      (result.truncated = true ↔ 1 < C.ncard) ∧
      (∀ other ∈ result.retracted, ∃ before, supportedStore.nodeAt other = some before ∧
        before.status ≠ .retracted) ∧
      ∀ other, final.nodeAt other =
        if other ∈ result.retracted then (supportedStore.nodeAt other).map Node.retract
        else supportedStore.nodeAt other :=
  retractWithLimit_exact reachable_supportedStore nodeAt_supportedStore (by decide) (by decide)

/-! ### Completing a cascade that was cut -/

/-- A second retraction of a node, whatever room it has, completes the cascade of the first
exactly when the first was not cut. -/
theorem second_retraction_completes_iff {store : MemStore F} (reachable : Reachable store)
    {id : NodeId} {node : Node F} (stored : store.nodeAt id = some node)
    (active : node.status = .active) {limit : Nat} (positive : 1 ≤ limit) (room : Nat)
    {result : RetractResult} {between : MemStore F}
    (first : retractWithLimit id limit store = .ok result between) :
    (result.truncated = true → ∀ other ∈ store.fullCascade id, ∀ left,
        (between.after (.retractWithLimit id room)).nodeAt other = some left →
          left.status ≠ .active) ↔
      (store.fullCascade id).ncard ≤ limit := by
  have consistent := reachable.consistent
  have live : node.status ≠ .retracted := by
    rw [active]
    decide
  obtain ⟨depth, ran⟩ := retractWithLimit_run consistent.keyed stored live positive
  rw [ran] at first
  injection first with isResult isBetween
  have cut : result.truncated = true ↔ limit < (store.fullCascade id).ncard := by
    rw [← isResult]
    exact store.cascadeTrace_truncated_iff stored positive
  constructor
  · intro completes
    by_contra large
    have truncated := cut.mpr (by omega)
    have rootMarked := store.root_mem_cascadeTrace id limit
    -- a member of the cascade that the first call left out
    obtain ⟨other, member, unmarked⟩ : ∃ other ∈ store.fullCascade id,
        other ∉ (store.cascadeTrace id limit).marked := by
      have cutTrace : (store.cascadeTrace id limit).truncated = true := by
        rwa [← isResult] at truncated
      rcases (store.cascadeTrace_run id positive).cut cutTrace with
        impossible | ⟨_, other, ⟨start, isRoot, path⟩, unmarked⟩
      · exact absurd impossible (by simp [Marking.Trace.empty])
      · exact ⟨other, isRoot ▸ path, unmarked⟩
    have notRoot : other ≠ id := fun same => unmarked (same ▸ rootMarked)
    obtain ⟨left, storedOther, activeDerived⟩ := exists_of_mem_fullCascade member notRoot
    have nodeAtBetween : ∀ y, between.nodeAt y =
        if y ∈ (store.cascadeTrace id limit).marked then (store.nodeAt y).map Node.retract
        else store.nodeAt y := by
      rw [← isBetween]
      exact nodeAt_retractAll _ consistent.keyed
    -- the root is retracted, so the second call does nothing
    have idle : ¬ between.Retracts id room := by
      rintro ⟨_, root, storedRoot, notRetracted⟩
      rw [nodeAtBetween, if_pos rootMarked, stored, Option.map_some,
        Option.some.injEq] at storedRoot
      exact notRetracted (storedRoot ▸ rfl)
    refine completes truncated other member left ?_ ?_
    · rw [(sameData_after_retract idle).nodeAt, nodeAtBetween, if_neg unmarked, storedOther]
    · simp only [Node.isActiveDerived, Bool.and_eq_true, beq_iff_eq] at activeDerived
      exact activeDerived.2
  · intro small truncated
    have large := cut.mp truncated
    omega

/-- A cascade of two nodes that is cut after its root is not completed by a second call. -/
theorem second_retraction_leaves_conclusion :
    ∃ (result : RetractResult) (between : MemStore Rat),
      Reachable supportedStore ∧
      supportedStore.nodeAt ⟨"n1"⟩ = some premise ∧
      premise.status = .active ∧
      retractWithLimit ⟨"n1"⟩ 1 supportedStore = .ok result between ∧
      result.truncated = true ∧
      supportedStore.backend.nodes.size ≤ 2 ∧
      ⟨"n2"⟩ ∈ supportedStore.fullCascade ⟨"n1"⟩ ∧
      (between.after (.retractWithLimit ⟨"n1"⟩ 2)).nodeAt ⟨"n2"⟩ = some conclusion ∧
      conclusion.status = .active := by
  refine ⟨_, _, reachable_supportedStore, nodeAt_supportedStore, by decide, rfl, by decide,
    by decide, .single ⟨by decide, by decide⟩, by decide, by decide⟩

/-- The first retraction of the premise has room for its conclusion and completes. -/
theorem second_retraction_completes_iff_premise :
    ∃ (result : RetractResult) (between : MemStore Rat),
      retractWithLimit ⟨"n1"⟩ 2 supportedStore = .ok result between ∧
      ((result.truncated = true → ∀ other ∈ supportedStore.fullCascade ⟨"n1"⟩, ∀ left,
          (between.after (.retractWithLimit ⟨"n1"⟩ 2)).nodeAt other = some left →
            left.status ≠ .active) ↔
        (supportedStore.fullCascade ⟨"n1"⟩).ncard ≤ 2) :=
  ⟨_, _, rfl,
    second_retraction_completes_iff reachable_supportedStore nodeAt_supportedStore (by decide)
      (by decide) 2 rfl⟩

/-! ### Conclusions on retracted premises -/

end FactumStore

/-- The nodes that a node names: its dependencies and the source it was derived from. -/
def Node.premises (node : Node F) : List NodeId :=
  node.deps ++ match node.provenance with
    | .derived from_ _ => [from_]
    | _ => []

namespace FactumStore

/-- No stored active derived node names a stored retracted node. -/
def Sound (store : MemStore F) : Prop :=
  ∀ id node, store.nodeAt id = some node → node.isActiveDerived = true →
    ∀ dep ∈ node.premises, ∀ support, store.nodeAt dep = some support →
      support.status ≠ .retracted

/-- New nodes that keep a store sound: an active derived one names no retracted node, stored
or new, and a retracted one is named by no stored active derived node. -/
structure KeepsSound (store : MemStore F) (nodes : List (Node F)) : Prop where
  supported : ∀ node ∈ nodes, node.isActiveDerived = true → ∀ dep ∈ node.premises, ∀ support,
    store.nodeAt dep = some support ∨ support ∈ nodes ∧ support.id = dep →
      support.status ≠ .retracted
  unnamed : ∀ support ∈ nodes, support.status = .retracted → ∀ id node,
    store.nodeAt id = some node → node.isActiveDerived = true → support.id ∉ node.premises

/-- A call that keeps a store sound: what it inserts does, and what it retracts is the source
only of conclusions that its cascade reaches. -/
def StepSound (store : MemStore F) : Call F → Prop
  | .insert node => store.Accepts [node] → store.KeepsSound [node]
  | .insertBatch nodes => store.Accepts nodes → store.KeepsSound nodes
  | .retractWithLimit id maxNodes => store.Retracts id maxNodes →
    ∀ other node, store.nodeAt other = some node → node.isActiveDerived = true →
      (∃ dep ∈ node.premises, dep ∈ store.fullCascade id) → other ∈ store.fullCascade id
  | .subscribe _ => True
  | .setVerifiers _ => True

/-- A call that reports a truncated cascade. -/
def Truncates (store : MemStore F) (call : Call F) : Prop :=
  ∃ result : RetractResult, store.outcome call = .ok (.retracted result) ∧
    result.truncated = true

theorem not_truncates_insert (store : MemStore F) (node : Node F) :
    ¬ store.Truncates (.insert node) := by
  rintro ⟨result, answered, _⟩
  have mapped : store.outcome (.insert node) = (answer (insert node) store).map fun _ => .done :=
    answer_bind_pure _ _ _
  rw [mapped] at answered
  cases ran : answer (insert node) store <;> rw [ran] at answered <;> cases answered

theorem not_truncates_of_outcome {store : MemStore F} {call : Call F} (result : RetractResult)
    (answered : store.outcome call = .ok (.retracted result))
    (complete : result.truncated = false) : ¬ store.Truncates call := by
  rintro ⟨other, answeredOther, truncated⟩
  rw [answered] at answeredOther
  injection answeredOther with same
  injection same with same
  rw [← same, complete] at truncated
  exact Bool.noConfusion truncated

theorem Sound.congr_iff {store other : MemStore F} (same : SameData store other) :
    other.Sound ↔ store.Sound := by
  unfold Sound
  simp only [same.nodeAt]

/-- Taking new nodes keeps a store sound exactly when the nodes do. -/
theorem sound_admitted_iff {store : MemStore F} (sound : store.Sound) {nodes : List (Node F)}
    (accepts : store.Accepts nodes) : (store.admitted nodes).Sound ↔ store.KeepsSound nodes := by
  have stored := nodeAt_admitted_eq_some accepts
  constructor
  · intro soundAfter
    constructor
    · intro node member activeDerived dep named support isSupport
      refine soundAfter node.id node ((stored _ _).mpr (.inl ⟨member, rfl⟩)) activeDerived dep
        named support ((stored _ _).mpr ?_)
      exact isSupport.symm
    · intro support member retracted id node storedNode activeDerived named
      exact soundAfter id node ((stored _ _).mpr (.inr storedNode)) activeDerived support.id
        named support ((stored _ _).mpr (.inl ⟨member, rfl⟩)) retracted
  · intro keeps id node storedNode activeDerived dep named support storedSupport
    rcases (stored id node).mp storedNode with ⟨member, _⟩ | old
    · exact keeps.supported node member activeDerived dep named support
        ((stored _ _).mp storedSupport).symm
    · rcases (stored dep support).mp storedSupport with ⟨member, rfl⟩ | oldSupport
      · exact fun retracted => keeps.unnamed support member retracted id node old activeDerived
          named
      · exact sound id node old activeDerived dep named support oldSupport

/-- A complete cascade keeps a store sound exactly when it reaches every conclusion that
names one of its nodes. -/
theorem sound_retractAll_iff {store : MemStore F} (consistent : store.Consistent)
    (sound : store.Sound) {id : NodeId} {maxNodes : Nat} (retracts : store.Retracts id maxNodes)
    (complete : (store.cascadeTrace id maxNodes).truncated = false) :
    (store.retractAll (store.cascadeTrace id maxNodes).marked).Sound ↔
      ∀ other node, store.nodeAt other = some node → node.isActiveDerived = true →
        (∃ dep ∈ node.premises, dep ∈ store.fullCascade id) → other ∈ store.fullCascade id := by
  have marked := store.mem_cascadeTrace_iff retracts.positive complete
  have nodeAtAfter := nodeAt_retractAll (store.cascadeTrace id maxNodes).marked consistent.keyed
  obtain ⟨root, storedRoot, _⟩ := retracts.live
  constructor
  · rintro soundAfter other node stored activeDerived ⟨dep, named, member⟩
    by_contra outside
    -- the node stays active while the node it names is retracted
    obtain ⟨support, storedSupport⟩ : ∃ support, store.nodeAt dep = some support := by
      by_cases isRoot : dep = id
      · exact ⟨root, isRoot ▸ storedRoot⟩
      · obtain ⟨support, storedSupport, _⟩ := exists_of_mem_fullCascade member isRoot
        exact ⟨support, storedSupport⟩
    refine soundAfter other node ?_ activeDerived dep named support.retract ?_ rfl
    · rw [nodeAtAfter, if_neg (fun inside => outside ((marked other).mp inside)), stored]
    · rw [nodeAtAfter, if_pos ((marked dep).mpr member), storedSupport]
      rfl
  · intro reaches other node stored activeDerived dep named support storedSupport retracted
    rw [nodeAtAfter] at stored storedSupport
    by_cases inside : other ∈ (store.cascadeTrace id maxNodes).marked
    · rw [if_pos inside] at stored
      obtain ⟨before, _, rfl⟩ := Option.map_eq_some_iff.mp stored
      simp [Node.isActiveDerived, Node.retract] at activeDerived
    · rw [if_neg inside] at stored
      by_cases depInside : dep ∈ (store.cascadeTrace id maxNodes).marked
      · exact inside ((marked other).mpr
          (reaches other node stored activeDerived ⟨dep, named, (marked dep).mp depInside⟩))
      · rw [if_neg depInside] at storedSupport
        exact sound other node stored activeDerived dep named support storedSupport retracted

theorem outcome_retract_of_retracts {store : MemStore F} (keyed : store.Keyed) {id : NodeId}
    {maxNodes : Nat} (retracts : store.Retracts id maxNodes) : ∃ depth,
    store.outcome (.retractWithLimit id maxNodes) =
      .ok (.retracted (resultOf (store.cascadeTrace id maxNodes) depth)) := by
  obtain ⟨node, stored, live⟩ := retracts.live
  obtain ⟨depth, ran⟩ := retractWithLimit_run keyed stored live retracts.positive
  refine ⟨depth, (answer_bind_pure _ _ _).trans ?_⟩
  rw [answer_ok ran]
  rfl

/-- One call that reports no truncated cascade keeps a sound store sound exactly when the
call is sound. -/
theorem sound_after_iff {store : MemStore F} (consistent : store.Consistent)
    (sound : store.Sound) (call : Call F) (complete : ¬ store.Truncates call) :
    (store.after call).Sound ↔ store.StepSound call := by
  cases call with
  | insert node =>
    by_cases accepts : store.Accepts [node]
    · rw [after_insert_of_accepts accepts, sound_admitted_iff sound accepts]
      exact ⟨fun keeps _ => keeps, fun keeps => keeps accepts⟩
    · rw [after_insert_of_not_accepts accepts]
      exact ⟨fun _ given => absurd given accepts, fun _ => sound⟩
  | insertBatch nodes =>
    by_cases accepts : store.Accepts nodes
    · rw [after_insertBatch_of_accepts accepts]
      refine (sound_admitted_iff sound accepts).trans ?_
      exact ⟨fun keeps _ => keeps, fun keeps => keeps accepts⟩
    · rw [after_insertBatch_of_not_accepts accepts]
      exact ⟨fun _ given => absurd given accepts, fun _ => sound⟩
  | retractWithLimit id maxNodes =>
    by_cases retracts : store.Retracts id maxNodes
    · have notCut : (store.cascadeTrace id maxNodes).truncated = false := by
        by_contra cut
        obtain ⟨depth, answered⟩ := outcome_retract_of_retracts consistent.keyed retracts
        exact complete ⟨_, answered, by simpa [resultOf] using cut⟩
      rw [after_retract_of_retracts consistent.keyed retracts]
      refine (sound_retractAll_iff consistent sound retracts notCut).trans ?_
      exact ⟨fun reaches _ => reaches, fun reaches => reaches retracts⟩
    · rw [Sound.congr_iff (sameData_after_retract retracts)]
      exact ⟨fun _ given => absurd given retracts, fun _ => sound⟩
  | subscribe pattern => exact ⟨fun _ => trivial, fun _ => sound⟩
  | setVerifiers verifiers => exact ⟨fun _ => trivial, fun _ => sound⟩

/-- In a run without truncated cascades every store is sound exactly when every call is. -/
theorem run_sound_iff (nodeOrder : Hash.Order NodeId) (hasher : Cf → Hash.Order (List UInt8))
    (registry : MorphemeRegistry) (calls : List (Call F))
    (complete : Along (fun store call => ¬ store.Truncates call)
      (MemStore.empty nodeOrder hasher registry) calls) :
    (∀ early, early <+: calls →
        ((MemStore.empty nodeOrder hasher registry : MemStore F).run early).Sound) ↔
      Along StepSound (MemStore.empty nodeOrder hasher registry) calls := by
  have soundEmpty : (MemStore.empty nodeOrder hasher registry : MemStore F).Sound := by
    intro id node stored
    rw [(empty_data nodeOrder hasher registry).1] at stored
    exact absurd stored (by simp)
  have keeps : ∀ (store : MemStore F) (call : Call F), store.Consistent →
      ¬ store.Truncates call → (store.after call).Consistent :=
    fun store call consistent _ => consistent.after call
  have step : ∀ (store : MemStore F) (call : Call F), store.Consistent → store.Sound →
      ¬ store.Truncates call → ((store.after call).Sound ↔ store.StepSound call) :=
    fun store call consistent sound notCut => sound_after_iff consistent sound call notCut
  exact run_iff_along keeps step calls (consistent_empty nodeOrder hasher registry) soundEmpty
    complete

/-- A conclusion that names its premise only as its source outlives it. -/
theorem run_leaves_looseConclusion :
    Along (fun store call => ¬ store.Truncates call) blank
      [.insert premise, .insert looseConclusion, .retractWithLimit ⟨"n1"⟩ 100] ∧
    ∃ support,
      (blank.run [.insert premise, .insert looseConclusion, .retractWithLimit ⟨"n1"⟩ 100]).nodeAt
        ⟨"n3"⟩ = some looseConclusion ∧
      looseConclusion.isActiveDerived = true ∧
      ⟨"n1"⟩ ∈ looseConclusion.premises ∧
      (blank.run [.insert premise, .insert looseConclusion, .retractWithLimit ⟨"n1"⟩ 100]).nodeAt
        ⟨"n1"⟩ = some support ∧
      support.status = .retracted := by
  refine ⟨⟨not_truncates_insert _ _, not_truncates_insert _ _, ?_, trivial⟩,
    premise.retract, by decide, by decide, by decide, by decide, rfl⟩
  exact not_truncates_of_outcome ⟨[⟨"n1"⟩], false, 0⟩ (by decide) rfl

/-- A run whose conclusion lists its premise among its dependencies is sound throughout. -/
theorem run_sound_iff_conclusion :
    (∀ early,
        early <+: [.insert premise, .insert conclusion, .retractWithLimit ⟨"n1"⟩ 100] →
        (blank.run early).Sound) ↔
      Along StepSound blank
        [.insert premise, .insert conclusion, .retractWithLimit ⟨"n1"⟩ 100] := by
  refine run_sound_iff _ _ _ _
    ⟨not_truncates_insert _ _, not_truncates_insert _ _, ?_, trivial⟩
  exact not_truncates_of_outcome ⟨[⟨"n1"⟩, ⟨"n2"⟩], false, 1⟩ (by decide) rfl

end FactumStore

end Factum
