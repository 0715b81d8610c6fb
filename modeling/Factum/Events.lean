/-
This file is about the events that a subscriber receives.

A subscriber that follows every node should be able to rebuild the set of the active
nodes from its events alone: an insertion adds an identifier, a retraction removes its
cascade. The retractions tell every subscriber of every member they retract, but the
match of a pattern gives up on a head that is an identifier, so that even `*` misses
the nodes with such a head. The set is right throughout a run exactly when the run
stores only nodes whose heads are names.
-/

import Factum.Retraction
import Factum.Library.Steps

namespace Factum

variable {F : Type}

/-- Poll for events: those since the last poll. -/
def Subscription.poll (subscription : Subscription F) :
    List (SubscriptionEvent F) × Subscription F :=
  (subscription.events, { subscription with events := [] })

/-- The subscriber with an identifier polls. -/
def SubscriptionManager.poll (manager : SubscriptionManager F) (id : UInt64) :
    List (SubscriptionEvent F) × SubscriptionManager F :=
  match manager.subscriptions.find? (·.id == id) with
  | none => ([], manager)
  | some subscription =>
    (subscription.poll.1, { manager with subscriptions := manager.subscriptions.map fun other =>
      if other.id == id then subscription.poll.2 else other })

/-! ### Folding events -/

/-- The set of identifiers after an event: an insertion adds one, a retraction removes its
cascade. -/
def SubscriptionEvent.apply (live : Set NodeId) : SubscriptionEvent F → Set NodeId
  | .inserted node => insert node.id live
  | .retracted _ cascade => live \ {id | id ∈ cascade}

/-- The set that the events of a subscriber amount to. -/
def fold (events : List (SubscriptionEvent F)) : Set NodeId :=
  events.foldl SubscriptionEvent.apply ∅

theorem mem_fold_inserted (events : List (SubscriptionEvent F)) (nodes : List (Node F))
    (id : NodeId) :
    id ∈ fold (events ++ nodes.map .inserted) ↔
      id ∈ fold events ∨ ∃ node ∈ nodes, node.id = id := by
  rw [fold, List.foldl_append]
  show id ∈ (nodes.map SubscriptionEvent.inserted).foldl _ (fold events) ↔ _
  induction nodes generalizing events with
  | nil => simp
  | cons node rest inductionHypothesis =>
    have next : SubscriptionEvent.apply (fold events) (.inserted node) =
        fold (events ++ [.inserted node]) := by
      rw [fold, fold, List.foldl_append, List.foldl_cons, List.foldl_nil]
    have cases : (∃ other ∈ node :: rest, other.id = id) ↔
        node.id = id ∨ ∃ other ∈ rest, other.id = id := by simp
    rw [List.map_cons, List.foldl_cons, next, inductionHypothesis, ← next, cases, ← or_assoc]
    refine or_congr_left ?_
    show id = node.id ∨ id ∈ fold events ↔ _
    rw [or_comm, eq_comm]

theorem mem_fold_retracted (events : List (SubscriptionEvent F)) (root id : NodeId)
    (cascade : List NodeId) :
    id ∈ fold (events ++ [.retracted root cascade]) ↔ id ∈ fold events ∧ id ∉ cascade := by
  rw [fold, List.foldl_append]
  exact Iff.rfl

/-! ### A subscriber and its store -/

/-- What happens to a store that a subscriber follows: a call, or the subscriber polls. -/
inductive Turn (F : Type) where
  | call (call : Call F)
  | poll

/-- A store and what its first subscriber has received. -/
structure Follower (F : Type) where
  store : MemStore F
  received : List (SubscriptionEvent F)

namespace Follower

/-- An empty store to which someone subscribed for everything. -/
def start (nodeOrder : Hash.Order NodeId) (hasher : Cf → Hash.Order (List UInt8))
    (registry : MorphemeRegistry) : Follower F :=
  ⟨(MemStore.empty nodeOrder hasher registry).after (.subscribe "*"), []⟩

/-- A call of the store, or a poll of the subscriber. -/
def turn (follower : Follower F) : Turn F → Follower F
  | .call call => { follower with store := follower.store.after call }
  | .poll =>
    let (events, subscriptions) := follower.store.subscriptions.poll 0
    ⟨{ follower.store with subscriptions := subscriptions }, follower.received ++ events⟩

/-- The events so far: those received, and those that the next poll hands out. -/
def delivered (follower : Follower F) : List (SubscriptionEvent F) :=
  follower.received ++ (follower.store.subscriptions.poll 0).1

/-- The events amount to the identifiers of the active nodes. -/
def Complete (follower : Follower F) : Prop :=
  fold follower.delivered =
    {id | ∃ node, follower.store.nodeAt id = some node ∧ node.status = .active}

end Follower

/-- The turns of a run: insertions of active nodes, retractions and polls. -/
def Turn.Plain : Turn F → Prop
  | .call (.insert node) => node.status = .active
  | .call (.insertBatch nodes) => ∀ node ∈ nodes, node.status = .active
  | .call (.retractWithLimit _ _) => True
  | .call (.subscribe _) => False
  | .call (.setVerifiers _) => False
  | .poll => True

/-- A node whose head is a name. -/
def Node.HasNamedHead (node : Node F) : Prop := ∃ name, node.predicate.head = .name name

instance (node : Node F) : Decidable node.HasNamedHead :=
  match isHead : node.predicate.head with
  | .name name => .isTrue ⟨name, isHead⟩
  | .id _ => .isFalse fun ⟨name, isName⟩ => by
    rw [isHead] at isName
    cases isName

/-- A turn that stores only nodes whose heads are names. -/
def Follower.StoresNamed (follower : Follower F) : Turn F → Prop
  | .call call => follower.store.StoresOnly Node.HasNamedHead call
  | .poll => True

/-! ### What a subscriber is told -/

/-- The only subscriber of a manager follows everything and has some events pending. -/
def OnlyFollower (manager : SubscriptionManager F) (pending : List (SubscriptionEvent F)) : Prop :=
  manager = ⟨[⟨"*", none, pending, 0⟩], 1⟩

theorem OnlyFollower.poll {manager : SubscriptionManager F}
    {pending : List (SubscriptionEvent F)} (only : OnlyFollower manager pending) :
    (manager.poll 0).1 = pending ∧ OnlyFollower (manager.poll 0).2 [] := by
  subst only
  exact ⟨rfl, rfl⟩

/-- A follower of everything is told of a new node when its head is a name. -/
theorem OnlyFollower.notifyInsert {manager : SubscriptionManager F}
    {pending : List (SubscriptionEvent F)} (only : OnlyFollower manager pending) (node : Node F) :
    OnlyFollower (manager.notifyInsert node)
      (pending ++ if node.HasNamedHead then [.inserted node] else []) := by
  subst only
  rw [OnlyFollower, SubscriptionManager.notifyInsert, List.map_cons, List.map_nil,
    Subscription.matches]
  cases isHead : node.predicate.head with
  | id id =>
    rw [if_neg (c := node.HasNamedHead) fun ⟨name, isName⟩ => by
      rw [isHead] at isName
      cases isName]
    simp
  | name name =>
    rw [if_pos (c := node.HasNamedHead) ⟨name, isHead⟩]
    simp [Subscription.push]

theorem OnlyFollower.foldl_notifyInsert (nodes : List (Node F)) :
    ∀ {manager : SubscriptionManager F} {pending : List (SubscriptionEvent F)},
      OnlyFollower manager pending →
      OnlyFollower (nodes.foldl SubscriptionManager.notifyInsert manager)
        (pending ++ (nodes.filter fun node => node.HasNamedHead).map .inserted) := by
  induction nodes with
  | nil =>
    intro manager pending only
    simpa using only
  | cons node rest inductionHypothesis =>
    intro manager pending only
    have next := inductionHypothesis (only.notifyInsert node)
    rw [List.append_assoc] at next
    rw [List.foldl_cons, List.filter_cons]
    by_cases named : node.HasNamedHead
    · rw [if_pos named] at next
      rwa [if_pos (decide_eq_true named), List.map_cons]
    · rw [if_neg named] at next
      rwa [if_neg (by simpa using named)]

theorem OnlyFollower.notifyRetract {manager : SubscriptionManager F}
    {pending : List (SubscriptionEvent F)} (only : OnlyFollower manager pending) (id : NodeId)
    (cascade : List NodeId) :
    OnlyFollower (manager.notifyRetract id cascade) (pending ++ [.retracted id cascade]) := by
  subst only
  rfl

theorem OnlyFollower.admitted {store : MemStore F} {pending : List (SubscriptionEvent F)}
    (only : OnlyFollower store.subscriptions pending) (nodes : List (Node F)) :
    OnlyFollower (store.admitted nodes).subscriptions
      (pending ++ (nodes.filter fun node => node.HasNamedHead).map .inserted) := by
  rw [FactumStore.admitted, FactumStore.foldl_takeNode]
  exact only.foldl_notifyInsert nodes

theorem OnlyFollower.retractAll {store : MemStore F} {pending : List (SubscriptionEvent F)}
    (only : OnlyFollower store.subscriptions pending) (cascade : List NodeId) :
    OnlyFollower (store.retractAll cascade).subscriptions pending := by
  rw [(FactumStore.retractAll_same cascade store).2.2.2.1]
  exact only

namespace Follower

open FactumStore

/-- The store is consistent and the follower is its only subscriber. -/
structure Watches (follower : Follower F) : Prop where
  consistent : follower.store.Consistent
  only : ∃ pending, OnlyFollower follower.store.subscriptions pending

theorem delivered_eq (follower : Follower F) {pending : List (SubscriptionEvent F)}
    (only : OnlyFollower follower.store.subscriptions pending) :
    follower.delivered = follower.received ++ pending := by
  rw [delivered, only.poll.1]

theorem mem_active {store : MemStore F} (id : NodeId) :
    id ∈ {id | ∃ node, store.nodeAt id = some node ∧ node.status = .active} ↔
      ∃ node, store.nodeAt id = some node ∧ node.status = .active := Iff.rfl

/-- Events that change nothing, over a store with the same nodes. -/
theorem complete_of_same (before after : Follower F)
    (sameNodes : ∀ id, after.store.nodeAt id = before.store.nodeAt id)
    (sameFold : fold after.delivered = fold before.delivered) :
    after.Complete ↔ before.Complete := by
  rw [Complete, Complete, sameFold]
  simp only [sameNodes]

/-- A store that takes new nodes stays complete exactly when the heads of all of them are
names. -/
theorem complete_of_taken {before after : Follower F} (complete : before.Complete)
    {nodes : List (Node F)} (accepts : before.store.Accepts nodes)
    (active : ∀ node ∈ nodes, node.status = .active)
    (taken : ∀ id, after.store.nodeAt id = (before.store.admitted nodes).nodeAt id)
    (told : after.delivered =
      before.delivered ++ (nodes.filter fun node => node.HasNamedHead).map .inserted) :
    after.Complete ↔ ∀ node ∈ nodes, node.HasNamedHead := by
  have folded : ∀ id, id ∈ fold after.delivered ↔
      (∃ node, before.store.nodeAt id = some node ∧ node.status = .active) ∨
        ∃ node ∈ nodes, node.HasNamedHead ∧ node.id = id := by
    intro id
    rw [told, mem_fold_inserted, complete, mem_active]
    simp [and_assoc]
  have stored : ∀ id, (∃ node, after.store.nodeAt id = some node ∧ node.status = .active) ↔
      (∃ node, before.store.nodeAt id = some node ∧ node.status = .active) ∨
        ∃ node ∈ nodes, node.id = id := by
    intro id
    simp only [taken, nodeAt_admitted_eq_some accepts]
    constructor
    · rintro ⟨node, ⟨member, isId⟩ | old, isActive⟩
      · exact .inr ⟨node, member, isId⟩
      · exact .inl ⟨node, old, isActive⟩
    · rintro (⟨node, old, isActive⟩ | ⟨node, member, isId⟩)
      · exact ⟨node, .inr old, isActive⟩
      · exact ⟨node, .inl ⟨member, isId⟩, active node member⟩
  rw [Complete, Set.ext_iff]
  simp only [folded, Set.mem_ofPred_eq, stored]
  constructor
  · intro same node member
    rcases (same node.id).mpr (.inr ⟨node, member, rfl⟩) with ⟨other, old, _⟩ |
      ⟨other, isOther, named, sameId⟩
    · rw [accepts.fresh node member] at old
      cases old
    · rwa [← List.inj_on_of_nodup_map accepts.distinct isOther member sameId]
  · intro named id
    refine or_congr_right ⟨?_, ?_⟩
    · rintro ⟨node, member, _, isId⟩
      exact ⟨node, member, isId⟩
    · rintro ⟨node, member, isId⟩
      exact ⟨node, member, named node member, isId⟩

/-- A store that retracts a cascade stays complete. -/
theorem complete_of_retracted {before after : Follower F} (keyed : before.store.Keyed)
    (complete : before.Complete) {root : NodeId} {cascade : List NodeId}
    (retracted : ∀ id, after.store.nodeAt id = (before.store.retractAll cascade).nodeAt id)
    (told : after.delivered = before.delivered ++ [.retracted root cascade]) :
    after.Complete := by
  rw [Complete, Set.ext_iff]
  intro id
  rw [told, mem_fold_retracted, complete, mem_active, mem_active, retracted,
    nodeAt_retractAll _ keyed]
  by_cases marked : id ∈ cascade
  · refine iff_of_false (fun both => both.2 marked) ?_
    rintro ⟨node, stored, active⟩
    rw [if_pos marked] at stored
    obtain ⟨old, _, rfl⟩ := Option.map_eq_some_iff.mp stored
    cases active
  · rw [if_neg marked]
    exact and_iff_left marked

/-! ### Runs -/

/-- An insertion that is accepted tells the follower of the nodes whose heads are names. -/
theorem turn_taken {follower : Follower F} {pending : List (SubscriptionEvent F)}
    (only : OnlyFollower follower.store.subscriptions pending) {call : Call F}
    (accepts : follower.store.Accepts call.offered)
    (active : ∀ node ∈ call.offered, node.status = .active)
    (taken : ∀ id, (follower.store.after call).nodeAt id =
      (follower.store.admitted call.offered).nodeAt id)
    (told : (follower.store.after call).subscriptions =
      (follower.store.admitted call.offered).subscriptions) :
    (∃ pending, OnlyFollower (follower.store.after call).subscriptions pending) ∧
      (follower.Complete →
        ((follower.turn (.call call)).Complete ↔ follower.StoresNamed (.call call))) := by
  have onlyAfter := only.admitted call.offered
  rw [← told] at onlyAfter
  refine ⟨⟨_, onlyAfter⟩, fun complete => ?_⟩
  have delivered : (follower.turn (.call call)).delivered = follower.delivered ++
      (call.offered.filter fun node => node.HasNamedHead).map .inserted := by
    rw [delivered_eq follower only, delivered_eq (follower.turn (.call call)) onlyAfter,
      List.append_assoc]
    rfl
  refine (complete_of_taken complete accepts active taken delivered).trans ?_
  exact ⟨fun named _ node member _ => named node member,
    fun stores node member => stores accepts node member (active node member)⟩

/-- A retraction tells the follower of its cascade. -/
theorem turn_retracted {follower : Follower F} (keyed : follower.store.Keyed)
    {pending : List (SubscriptionEvent F)}
    (only : OnlyFollower follower.store.subscriptions pending) {id : NodeId} {maxNodes : Nat}
    {cascade : List NodeId} (after : follower.store.after (.retractWithLimit id maxNodes) =
      (follower.store.retractAll cascade).notifyRetract id cascade) :
    (∃ pending, OnlyFollower
        (follower.store.after (.retractWithLimit id maxNodes)).subscriptions pending) ∧
      (follower.Complete → ((follower.turn (.call (.retractWithLimit id maxNodes))).Complete ↔
        follower.StoresNamed (.call (.retractWithLimit id maxNodes)))) := by
  have onlyAfter : OnlyFollower (follower.store.after (.retractWithLimit id maxNodes)).subscriptions
      (pending ++ [.retracted id cascade]) := by
    rw [after]
    exact (only.retractAll cascade).notifyRetract id cascade
  refine ⟨⟨_, onlyAfter⟩, fun complete => iff_of_true ?_ ?_⟩
  · have nodes : ∀ other, (follower.store.after (.retractWithLimit id maxNodes)).nodeAt other =
        (follower.store.retractAll cascade).nodeAt other := by
      intro other
      rw [after]
      rfl
    have told : (follower.turn (.call (.retractWithLimit id maxNodes))).delivered =
        follower.delivered ++ [.retracted id cascade] := by
      have delivered :=
        delivered_eq (follower.turn (.call (.retractWithLimit id maxNodes))) onlyAfter
      rw [delivered_eq follower only, delivered, List.append_assoc]
      rfl
    exact complete_of_retracted keyed complete nodes told
  · exact fun _ _ offered => absurd offered List.not_mem_nil

/-- A turn leaves the follower the only one, and keeps the events complete exactly when it
stores only nodes whose heads are names. -/
theorem turn_exact {follower : Follower F} (watches : follower.Watches) {turn : Turn F}
    (plain : turn.Plain) : (follower.turn turn).Watches ∧
      (follower.Complete → ((follower.turn turn).Complete ↔ follower.StoresNamed turn)) := by
  obtain ⟨pending, only⟩ := watches.only
  have unchanged : ∀ {call : Call F}, follower.store.after call = follower.store →
      follower.StoresNamed (.call call) →
      (∃ pending, OnlyFollower (follower.store.after call).subscriptions pending) ∧
        (follower.Complete →
          ((follower.turn (.call call)).Complete ↔ follower.StoresNamed (.call call))) := by
    intro call same stores
    have sameFollower : follower.turn (.call call) = follower := by
      show { follower with store := follower.store.after call } = follower
      rw [same]
    rw [same, sameFollower]
    exact ⟨⟨pending, only⟩, fun complete => iff_of_true complete stores⟩
  cases turn with
  | poll =>
    have sameData : SameData follower.store (follower.turn .poll).store :=
      ⟨fun _ => rfl, fun _ _ => rfl, rfl, rfl⟩
    have sameFold : fold (follower.turn .poll).delivered = fold follower.delivered := by
      rw [delivered_eq (follower.turn .poll) only.poll.2, List.append_nil]
      rfl
    refine ⟨⟨watches.consistent.congr sameData, [], only.poll.2⟩, fun complete => ?_⟩
    have complete' := (complete_of_same follower _ sameData.nodeAt sameFold).mpr complete
    exact iff_of_true complete' trivial
  | call call =>
    suffices step : (∃ pending, OnlyFollower (follower.store.after call).subscriptions pending) ∧
        (follower.Complete →
          ((follower.turn (.call call)).Complete ↔ follower.StoresNamed (.call call))) from
      ⟨⟨watches.consistent.after call, step.1⟩, step.2⟩
    cases call with
    | insert node =>
      by_cases accepts : follower.store.Accepts [node]
      · have same := after_insert_of_accepts accepts
        exact turn_taken only accepts (List.forall_mem_singleton.mpr plain)
          (fun _ => by rw [same]; rfl) (by rw [same]; rfl)
      · exact unchanged (after_insert_of_not_accepts accepts) fun given => absurd given accepts
    | insertBatch nodes =>
      by_cases accepts : follower.store.Accepts nodes
      · have same := after_insertBatch_of_accepts accepts
        exact turn_taken only accepts plain (fun _ => by rw [same]; rfl) (by rw [same]; rfl)
      · exact unchanged (after_insertBatch_of_not_accepts accepts) fun given => absurd given accepts
    | retractWithLimit id maxNodes =>
      have keyed := watches.consistent.keyed
      by_cases retracts : follower.store.Retracts id maxNodes
      · exact turn_retracted keyed only (after_retract_of_retracts keyed retracts)
      · rcases after_retract_of_idle retracts with same | told
        · exact unchanged same fun _ _ offered => absurd offered List.not_mem_nil
        · have nothing : follower.store.after (.retractWithLimit id maxNodes) =
              (follower.store.retractAll []).notifyRetract id [] := told
          exact turn_retracted keyed only nothing
    | subscribe pattern => exact plain.elim
    | setVerifiers verifiers => exact plain.elim

/-- The events of a follower amount to the active nodes throughout a run exactly when every turn
stores only nodes whose heads are names. -/
theorem run_complete_iff (nodeOrder : Hash.Order NodeId) (hasher : Cf → Hash.Order (List UInt8))
    (registry : MorphemeRegistry) (turns : List (Turn F)) (plain : ∀ turn ∈ turns, turn.Plain) :
    (∀ early, early <+: turns →
        (early.foldl turn (start nodeOrder hasher registry)).Complete) ↔
      Steps.Along turn StoresNamed (start nodeOrder hasher registry) turns := by
  have noNodes := (empty_data (F := F) nodeOrder hasher registry).1
  have only : OnlyFollower
      (start nodeOrder hasher registry : Follower F).store.subscriptions [] := by
    rw [start, MemStore.empty_eq]
    rfl
  have consistent := (consistent_empty (F := F) nodeOrder hasher registry).after (.subscribe "*")
  refine Steps.throughout_iff_along
    (fun follower turn watches plain => (turn_exact watches plain).1)
    (fun follower turn watches complete plain => (turn_exact watches plain).2 complete) turns
    ⟨consistent, [], only⟩ ?_ (Steps.along_of_mem (fun turn member _ => plain turn member) _)
  rw [Complete, delivered_eq _ only]
  ext id
  refine iff_of_false (fun impossible => impossible) ?_
  rintro ⟨node, stored, _⟩
  have absent : (start nodeOrder hasher registry : Follower F).store.nodeAt id = none := noNodes id
  rw [absent] at stored
  cases stored

/-- The run of an insertion, a poll and a retraction. -/
theorem run_complete_iff_premise :
    (∀ early, early <+: [.call (.insert premise), .poll, .call (.retractWithLimit ⟨"n1"⟩ 100)] →
        (early.foldl turn (start (.asStored _) (fun _ => .asStored _) .new)).Complete) ↔
      Steps.Along turn StoresNamed (start (.asStored _) (fun _ => .asStored _) .new)
        [.call (.insert premise), .poll, .call (.retractWithLimit ⟨"n1"⟩ 100)] := by
  refine run_complete_iff _ _ _ _ fun turn member => ?_
  simp only [List.mem_cons, List.not_mem_nil, or_false] at member
  rcases member with rfl | rfl | rfl
  · exact rfl
  · exact trivial
  · exact trivial

/-- A fact whose head is the identifier of a morpheme. -/
def numbered : Node Rat := Node.new "n1" ⟨.id ⟨0⟩, [.ent ⟨"A"⟩, .ent ⟨"B"⟩], []⟩

/-- A follower of everything is not told of a node whose head is an identifier. -/
theorem numbered_untold :
    ¬ ∀ turns : List (Turn Rat), (∀ turn ∈ turns, turn.Plain) →
      (turns.foldl turn (start (.asStored _) (fun _ => .asStored _) .new)).Complete := by
  intro every
  have complete := every [.call (.insert numbered)] (List.forall_mem_singleton.mpr rfl)
  have untold : ([.call (.insert numbered)].foldl turn
      (start (.asStored _) (fun _ => .asStored _) .new)).delivered = [] := by decide +kernel
  have stored : ([.call (.insert numbered)].foldl turn
      (start (.asStored _) (fun _ => .asStored _) .new)).store.nodeAt ⟨"n1"⟩ = some numbered := by
    decide +kernel
  rw [Complete, untold] at complete
  have member : (⟨"n1"⟩ : NodeId) ∈ fold ([] : List (SubscriptionEvent Rat)) := by
    rw [complete]
    exact ⟨numbered, stored, rfl⟩
  exact member

end Follower

end Factum
