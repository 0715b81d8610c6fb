/-
This file is about any number of subscribers that come, poll and go while a store is used.

What a call does is announced by its answer alone: a stored node is an insertion, a
retraction that comes to an answer is one event with its cascade. Every subscriber gets the
announcements from its subscription on that concern its pattern, in order, each once, and
however the polls fall: what it has polled and what it has not polled yet make up this list.
After it unsubscribes it is told nothing more, but keeps what was left to poll.
-/

import Factum.Events

namespace Factum

open Stateful

variable {F : Type}

/-! ### Announcements -/

/-- Whether an event concerns a pattern: an insertion under a name that the pattern is or
stands for, or a retraction. -/
def SubscriptionEvent.concerns (pattern : String) : SubscriptionEvent F → Bool
  | .inserted node =>
    match node.predicate.head with
    | .name headName => pattern == headName || pattern == "*"
    | .id _ => false
  | .retracted _ _ => true

/-- The events that a call with its answer amounts to. -/
def Call.announced (call : Call F) : Except (Stop StoreError) Answer → List (SubscriptionEvent F)
  | .ok answer =>
    match call, answer with
    | .insert node, _ => [.inserted node]
    | .insertBatch nodes, _ => nodes.map .inserted
    | .retractWithLimit id _, .retracted result => [.retracted id result.retracted]
    | _, _ => []
  | .error _ => []

namespace SubscriptionManager

/-- Tell the subscribers of an event. -/
def tell (manager : SubscriptionManager F) : SubscriptionEvent F → SubscriptionManager F
  | .inserted node => manager.notifyInsert node
  | .retracted id cascade => manager.notifyRetract id cascade

end SubscriptionManager

/-- Whether a subscriber is told of an event. -/
def Subscription.hears (subscription : Subscription F) : SubscriptionEvent F → Bool
  | .inserted node => subscription.matches node
  | .retracted _ _ => true

/-- A subscriber after it was told of some events. -/
def Subscription.told (subscription : Subscription F) (events : List (SubscriptionEvent F)) :
    Subscription F :=
  { subscription with events := subscription.events ++ events.filter subscription.hears }

/-- A subscriber without a window is told of what concerns its pattern. -/
theorem Subscription.hears_eq_concerns {subscription : Subscription F}
    (unbounded : subscription.validityWindow = none) :
    subscription.hears = SubscriptionEvent.concerns subscription.pattern := by
  funext event
  cases event with
  | retracted id cascade => rfl
  | inserted node =>
    simp only [hears, «matches», SubscriptionEvent.concerns, unbounded]
    cases node.predicate.head with
    | id id => rfl
    | name headName =>
      dsimp only
      by_cases isHead : subscription.pattern = headName <;>
        by_cases isStar : subscription.pattern = "*" <;> simp [isHead, isStar]

theorem Subscription.told_told (subscription : Subscription F)
    (events later : List (SubscriptionEvent F)) :
    (subscription.told events).told later = subscription.told (events ++ later) := by
  have same : (subscription.told events).hears = subscription.hears := by
    funext event
    cases event <;> rfl
  unfold told at *
  rw [same]
  simp

namespace SubscriptionManager

theorem subscriptions_tell (manager : SubscriptionManager F) (event : SubscriptionEvent F) :
    (manager.tell event).subscriptions =
      manager.subscriptions.map fun subscription => subscription.told [event] := by
  cases event with
  | inserted node =>
    refine List.map_congr_left fun subscription _ => ?_
    by_cases isMatch : subscription.matches node = true
    · simp [Subscription.told, Subscription.hears, Subscription.push, isMatch]
    · simp [Subscription.told, Subscription.hears, isMatch]
  | retracted id cascade => exact List.map_congr_left fun subscription _ => rfl

/-- Every subscriber is told of the same events, and nobody comes or goes. -/
theorem foldl_tell (events : List (SubscriptionEvent F)) : ∀ manager : SubscriptionManager F,
    events.foldl tell manager =
      ⟨manager.subscriptions.map fun subscription => subscription.told events, manager.nextId⟩ := by
  induction events with
  | nil =>
    intro manager
    simp [Subscription.told]
  | cons event rest inductionHypothesis =>
    intro manager
    have sameNext : (manager.tell event).nextId = manager.nextId := by cases event <;> rfl
    rw [List.foldl_cons, inductionHypothesis, subscriptions_tell, sameNext, List.map_map]
    congr 1
    refine List.map_congr_left fun subscription _ => ?_
    exact Subscription.told_told subscription [event] rest

end SubscriptionManager

namespace FactumStore

open SubscriptionManager

/-- A call that succeeds and tells the subscribers of what it announces. -/
theorem told_of_ok {store later : MemStore F} {call : Call F} {answer : Answer}
    (ran : perform call store = .ok answer later)
    (told : later.subscriptions = (call.announced (.ok answer)).foldl tell store.subscriptions) :
    (store.after call).subscriptions =
      (call.announced (store.outcome call)).foldl tell store.subscriptions := by
  rw [after, final_ok ran, outcome, answer_ok ran, told]

/-- A call that fails and leaves the store as it was. -/
theorem told_of_error {store : MemStore F} {call : Call F} {error : Stop StoreError}
    (ran : perform call store = .error error store) :
    (store.after call).subscriptions =
      (call.announced (store.outcome call)).foldl tell store.subscriptions := by
  rw [after, final_error ran, outcome, answer_error ran]
  rfl

theorem subscriptions_admitted (store : MemStore F) (nodes : List (Node F)) :
    (store.admitted nodes).subscriptions =
      (nodes.map SubscriptionEvent.inserted).foldl tell store.subscriptions := by
  rw [admitted, foldl_takeNode, List.foldl_map]
  rfl

/-- A call that is no subscription tells the subscribers of what its answer announces. -/
theorem subscriptions_after {store : MemStore F} (keyed : store.Keyed) {call : Call F}
    (stays : ∀ pattern, call ≠ .subscribe pattern) :
    (store.after call).subscriptions =
      (call.announced (store.outcome call)).foldl tell store.subscriptions := by
  cases call with
  | insert node =>
    have ran := insert_run store node
    cases rejected : store.rejection node with
    | some reason =>
      rw [rejected] at ran
      exact told_of_error (bind_error ran)
    | none =>
      rw [rejected] at ran
      by_cases stored : (store.nodeAt node.id).isSome = true
      · rw [if_pos stored] at ran
        exact told_of_error (bind_error ran)
      · rw [if_neg stored] at ran
        exact told_of_ok (bind_ok ran) (subscriptions_admitted store [node])
  | insertBatch nodes =>
    have ran := insertBatch_run store nodes
    cases rejected : nodes.findSome? store.rejection with
    | some reason =>
      rw [rejected] at ran
      exact told_of_error (bind_error ran)
    | none =>
      rw [rejected] at ran
      cases duplicate : store.firstDuplicate nodes [] with
      | some id =>
        rw [duplicate] at ran
        exact told_of_error (bind_error ran)
      | none =>
        rw [duplicate] at ran
        exact told_of_ok (bind_ok ran) (subscriptions_admitted store nodes)
  | retractWithLimit id maxNodes =>
    rcases Nat.eq_zero_or_pos maxNodes with rfl | positive
    · exact told_of_ok (bind_ok (retractWithLimit_zero store id)) rfl
    · cases stored : store.nodeAt id with
      | none => exact told_of_error (bind_error (retractWithLimit_notFound stored positive))
      | some node =>
        by_cases retracted : node.status = .retracted
        · exact told_of_ok (bind_ok (retractWithLimit_retracted stored retracted positive)) rfl
        · obtain ⟨depth, ran⟩ := retractWithLimit_run keyed stored retracted positive
          refine told_of_ok (bind_ok ran) ?_
          exact congrArg (fun manager : SubscriptionManager F => manager.notifyRetract id _)
            (retractAll_same _ store).2.2.2.1
  | subscribe pattern => exact absurd rfl (stays pattern)
  | setVerifiers verifiers => rfl

end FactumStore

/-! ### Subscribers that come and go -/

/-- What happens to a store and its subscribers: a call, a poll, or an end of a subscription. -/
inductive Act (F : Type) where
  | call (call : Call F)
  | poll (id : UInt64)
  | unsubscribe (id : UInt64)

/-- A store, the subscriptions that left it, which their owners can still poll, and what was
polled under each identifier. -/
structure Hub (F : Type) where
  store : MemStore F
  parted : List (Subscription F)
  received : UInt64 → List (SubscriptionEvent F)

namespace Hub

open FactumStore

/-- Every subscription that somebody can poll. -/
def held (hub : Hub F) : List (Subscription F) :=
  hub.store.subscriptions.subscriptions ++ hub.parted

/-- Drain the subscriptions with an identifier. -/
def drain (id : UInt64) (subscription : Subscription F) : Subscription F :=
  if subscription.id == id then subscription.poll.2 else subscription

/-- The hub after an act. -/
def act (hub : Hub F) : Act F → Hub F
  | .call call => { hub with store := hub.store.after call }
  | .poll id =>
    match hub.held.find? (·.id == id) with
    | none => hub
    | some subscription =>
      { store := { hub.store with subscriptions :=
          { hub.store.subscriptions with
            subscriptions := hub.store.subscriptions.subscriptions.map (drain id) } }
        parted := hub.parted.map (drain id)
        received := Function.update hub.received id (hub.received id ++ subscription.poll.1) }
  | .unsubscribe id =>
    { hub with
      store := { hub.store with subscriptions := hub.store.subscriptions.unsubscribe id }
      parted := hub.parted ++ hub.store.subscriptions.subscriptions.filter (·.id == id) }

/-- The events so far for an identifier: those polled, and those that the next poll hands
out. -/
def delivered (hub : Hub F) (id : UInt64) : List (SubscriptionEvent F) :=
  hub.received id ++ ((hub.held.find? (·.id == id)).map (·.poll.1)).getD []

/-- The hub after a run. -/
def run (hub : Hub F) (acts : List (Act F)) : Hub F := acts.foldl act hub

/-- The events that an act announces. -/
def announced (hub : Hub F) : Act F → List (SubscriptionEvent F)
  | .call call => call.announced (hub.store.outcome call)
  | .poll _ => []
  | .unsubscribe _ => []

/-- The events that a run announces, in order. -/
def announcements (hub : Hub F) : List (Act F) → List (SubscriptionEvent F)
  | [] => []
  | act :: rest => hub.announced act ++ announcements (hub.act act) rest

/-- An empty store without subscribers. -/
def start (nodeOrder : Hash.Order NodeId) (hasher : Cf → Hash.Order (List UInt8))
    (registry : MorphemeRegistry) : Hub F :=
  ⟨MemStore.empty nodeOrder hasher registry, [], fun _ => []⟩

end Hub

/-- Whether an act is a new subscription. -/
def Act.isSubscribe : Act F → Bool
  | .call (.subscribe _) => true
  | _ => false

theorem Act.not_subscribe {call : Call F} (other : (Act.call call).isSubscribe = false)
    (pattern : String) : call ≠ .subscribe pattern := by
  rintro rfl
  cases other

namespace Hub

open FactumStore

/-! ### Identifiers -/

/-- A consistent store whose subscriptions have the identifiers below a count, which is the
next one. -/
structure Numbered (hub : Hub F) (count : Nat) : Prop where
  consistent : hub.store.Consistent
  next : hub.store.subscriptions.nextId.toNat = count
  below : ∀ subscription ∈ hub.held, subscription.id.toNat < count
  unseen : ∀ id : UInt64, count ≤ id.toNat → hub.received id = []

theorem id_drain (id : UInt64) (subscription : Subscription F) :
    (drain id subscription).id = subscription.id := by
  unfold drain
  split <;> rfl

theorem held_poll (hub : Hub F) {id : UInt64} {subscription : Subscription F}
    (found : hub.held.find? (·.id == id) = some subscription) :
    (hub.act (.poll id)).held = hub.held.map (drain id) := by
  rw [held, held, List.map_append, act, found]

theorem mem_held_unsubscribe (hub : Hub F) (id : UInt64) (subscription : Subscription F) :
    subscription ∈ (hub.act (.unsubscribe id)).held ↔ subscription ∈ hub.held := by
  by_cases isId : subscription.id = id <;>
    simp [held, act, SubscriptionManager.unsubscribe, isId, or_comm]

/-- An act keeps the numbering, with one more for a subscription. -/
theorem Numbered.act {hub : Hub F} {count : Nat} (numbered : hub.Numbered count) (act : Act F)
    (room : count + [act].countP Act.isSubscribe < 2 ^ 64) :
    (hub.act act).Numbered (count + [act].countP Act.isSubscribe) := by
  cases act with
  | poll id =>
    cases found : hub.held.find? (·.id == id) with
    | none =>
      have same : hub.act (.poll id) = hub := by rw [Hub.act, found]
      rw [same]
      exact numbered
    | some subscription =>
      refine ⟨?_, ?_, ?_, ?_⟩
      · rw [Hub.act, found]
        exact numbered.consistent.congr ⟨fun _ => rfl, fun _ _ => rfl, rfl, rfl⟩
      · rw [Hub.act, found]
        exact numbered.next
      · rw [held_poll hub found, List.forall_mem_map]
        intro other member
        rw [id_drain]
        exact numbered.below other member
      · intro other unused
        have below := numbered.below subscription (List.mem_of_find?_eq_some found)
        have isId := List.find?_some found
        have differs : other ≠ id := by
          rintro rfl
          rw [eq_of_beq isId] at below
          exact absurd below (Nat.not_lt.mpr unused)
        rw [Hub.act, found]
        exact (Function.update_of_ne differs _ _).trans (numbered.unseen other unused)
  | unsubscribe id =>
    refine ⟨numbered.consistent.congr ⟨fun _ => rfl, fun _ _ => rfl, rfl, rfl⟩,
      numbered.next, fun subscription member => ?_, numbered.unseen⟩
    exact numbered.below subscription ((mem_held_unsubscribe hub id subscription).mp member)
  | call call =>
    have consistent := numbered.consistent.after call
    by_cases subscribes : (Act.call call).isSubscribe = true
    · cases call with
      | subscribe pattern =>
        have one : [(Act.call (.subscribe pattern) : Act F)].countP Act.isSubscribe = 1 := rfl
        rw [one] at room ⊢
        refine ⟨consistent, ?_, fun subscription member => ?_,
          fun id unused => numbered.unseen id (Nat.le_of_succ_le unused)⟩
        · show (hub.store.subscriptions.nextId + 1).toNat = count + 1
          rw [UInt64.toNat_add, numbered.next]
          exact Nat.mod_eq_of_lt room
        · have cases : subscription ∈ hub.held ∨
              subscription = .new hub.store.subscriptions.nextId pattern := by
            rcases List.mem_append.mp member with live | gone
            · rcases List.mem_append.mp live with old | isNew
              · exact .inl (List.mem_append_left _ old)
              · exact .inr (List.mem_singleton.mp isNew)
            · exact .inl (List.mem_append_right _ gone)
          rcases cases with old | rfl
          · exact Nat.lt_succ_of_lt (numbered.below subscription old)
          · show hub.store.subscriptions.nextId.toNat < count + 1
            rw [numbered.next]
            exact Nat.lt_succ_self count
      | _ => cases subscribes
    · have told := subscriptions_after numbered.consistent.keyed
        (Act.not_subscribe (Bool.eq_false_iff.mpr subscribes))
      rw [SubscriptionManager.foldl_tell] at told
      have none : [Act.call call].countP Act.isSubscribe = 0 := by
        rw [List.countP_singleton, if_neg subscribes]
      rw [none]
      refine ⟨consistent, ?_, fun subscription member => ?_, numbered.unseen⟩
      · show (hub.store.after call).subscriptions.nextId.toNat = count
        rw [told]
        exact numbered.next
      · rcases List.mem_append.mp member with live | gone
        · have live' : subscription ∈ (hub.store.after call).subscriptions.subscriptions := live
          rw [told] at live'
          obtain ⟨old, isOld, rfl⟩ := List.mem_map.mp live'
          exact numbered.below old (List.mem_append_left _ isOld)
        · exact numbered.below subscription (List.mem_append_right _ gone)

theorem Numbered.run (acts : List (Act F)) : ∀ {hub : Hub F} {count : Nat}, hub.Numbered count →
    count + acts.countP Act.isSubscribe < 2 ^ 64 →
    (hub.run acts).Numbered (count + acts.countP Act.isSubscribe) := by
  induction acts with
  | nil => exact fun numbered _ => numbered
  | cons act rest inductionHypothesis =>
    intro hub count numbered room
    have split : (act :: rest).countP Act.isSubscribe =
        [act].countP Act.isSubscribe + rest.countP Act.isSubscribe := by
      rw [← List.countP_append, List.singleton_append]
    rw [split, ← Nat.add_assoc] at room ⊢
    exact inductionHypothesis (numbered.act act (Nat.lt_of_le_of_lt (Nat.le_add_right _ _) room))
      room

/-! ### One subscriber -/

/-- The subscriptions with an identifier. -/
def withId (id : UInt64) (subscriptions : List (Subscription F)) : List (Subscription F) :=
  subscriptions.filter (·.id == id)

theorem withId_map {f : Subscription F → Subscription F} (keeps : ∀ other, (f other).id = other.id)
    (id : UInt64) (subscriptions : List (Subscription F)) :
    withId id (subscriptions.map f) = (withId id subscriptions).map f := by
  rw [withId, List.filter_map]
  refine congrArg _ (List.filter_congr fun other _ => ?_)
  rw [Function.comp_apply, keeps]

theorem find?_id (id : UInt64) (subscriptions : List (Subscription F)) :
    subscriptions.find? (·.id == id) = (withId id subscriptions).head? :=
  List.head?_filter.symm

/-- The subscription with an identifier, which is still in the store or has left it, and all
the events for it so far. -/
structure Feeds (hub : Hub F) (id : UInt64) (live : Bool) (subscription : Subscription F)
    (events : List (SubscriptionEvent F)) : Prop where
  stored : withId id hub.store.subscriptions.subscriptions = if live then [subscription] else []
  parted : withId id hub.parted = if live then [] else [subscription]
  told : hub.received id ++ subscription.events = events

theorem Feeds.held {hub : Hub F} {id : UInt64} {live : Bool} {subscription : Subscription F}
    {events : List (SubscriptionEvent F)} (feeds : hub.Feeds id live subscription events) :
    withId id hub.held = [subscription] := by
  rw [Hub.held, withId, List.filter_append]
  show withId id _ ++ withId id _ = _
  rw [feeds.stored, feeds.parted]
  cases live <;> rfl

theorem Feeds.delivered {hub : Hub F} {id : UInt64} {live : Bool} {subscription : Subscription F}
    {events : List (SubscriptionEvent F)} (feeds : hub.Feeds id live subscription events) :
    hub.delivered id = events := by
  rw [Hub.delivered, find?_id, feeds.held]
  exact feeds.told

/-- A poll moves the pending events of the subscriber to the received ones, and changes nothing
for the others. -/
theorem Feeds.poll {hub : Hub F} {id : UInt64} {live : Bool} {subscription : Subscription F}
    {events : List (SubscriptionEvent F)} (feeds : hub.Feeds id live subscription events)
    (other : UInt64) :
    (hub.act (.poll other)).Feeds id live (drain other subscription) events := by
  have isId : subscription.id = id := by
    have member : subscription ∈ withId id hub.held := by
      rw [feeds.held]
      exact List.mem_singleton_self subscription
    exact eq_of_beq (List.mem_filter.mp member).2
  have drained : ∀ subscriptions : List (Subscription F),
      withId id (subscriptions.map (drain other)) = (withId id subscriptions).map (drain other) :=
    withId_map (id_drain other) id
  cases found : hub.held.find? (·.id == other) with
  | none =>
    have differs : subscription.id ≠ other := by
      rintro rfl
      rw [find?_id, isId, feeds.held] at found
      cases found
    have same : hub.act (.poll other) = hub := by rw [act, found]
    rw [same, drain, if_neg (by simpa using differs)]
    exact feeds
  | some first =>
    refine ⟨?_, ?_, ?_⟩
    · rw [act, found]
      show withId id (hub.store.subscriptions.subscriptions.map (drain other)) = _
      rw [drained, feeds.stored]
      cases live <;> rfl
    · rw [act, found]
      show withId id (hub.parted.map (drain other)) = _
      rw [drained, feeds.parted]
      cases live <;> rfl
    · rw [act, found]
      show Function.update hub.received other (hub.received other ++ first.poll.1) id ++ _ = _
      by_cases isOther : id = other
      · subst isOther
        rw [find?_id, feeds.held] at found
        obtain rfl : subscription = first := Option.some.inj found
        rw [Function.update_self, drain, if_pos (beq_iff_eq.mpr isId), ← feeds.told]
        exact List.append_nil _
      · rw [Function.update_of_ne isOther, drain, if_neg (by simpa [isId] using isOther)]
        exact feeds.told

/-- The end of a subscription moves it out of the store. -/
theorem withId_unsubscribe_self (hub : Hub F) (id : UInt64) :
    withId id (hub.act (.unsubscribe id)).store.subscriptions.subscriptions = [] ∧
      withId id (hub.act (.unsubscribe id)).parted =
        withId id hub.parted ++ withId id hub.store.subscriptions.subscriptions := by
  constructor
  · show withId id (hub.store.subscriptions.subscriptions.filter (·.id != id)) = []
    rw [withId, List.filter_filter, List.filter_eq_nil_iff]
    intro other _
    simp
  · show withId id (hub.parted ++ withId id hub.store.subscriptions.subscriptions) = _
    rw [withId, List.filter_append]
    refine congrArg _ ?_
    rw [withId, List.filter_filter]
    simp

/-- The end of another subscription changes nothing. -/
theorem withId_unsubscribe_of_ne (hub : Hub F) {id other : UInt64} (differs : id ≠ other) :
    withId id (hub.act (.unsubscribe other)).store.subscriptions.subscriptions =
        withId id hub.store.subscriptions.subscriptions ∧
      withId id (hub.act (.unsubscribe other)).parted = withId id hub.parted := by
  constructor
  · show withId id (hub.store.subscriptions.subscriptions.filter (·.id != other)) = _
    rw [withId, List.filter_filter]
    refine List.filter_congr fun subscription _ => ?_
    by_cases isId : subscription.id = id
    · simp [isId, differs]
    · simp [isId]
  · show withId id (hub.parted ++ withId other hub.store.subscriptions.subscriptions) = _
    have none : withId id (withId other hub.store.subscriptions.subscriptions) = [] := by
      rw [withId, withId, List.filter_filter, List.filter_eq_nil_iff]
      intro subscription _ both
      obtain ⟨isId, isOther⟩ := Bool.and_eq_true_iff.mp both
      exact differs ((eq_of_beq isId).symm.trans (eq_of_beq isOther))
    rw [withId, List.filter_append]
    show _ ++ withId id _ = _
    rw [none, List.append_nil]
    rfl

theorem Feeds.unsubscribe {hub : Hub F} {id : UInt64} {live : Bool}
    {subscription : Subscription F} {events : List (SubscriptionEvent F)}
    (feeds : hub.Feeds id live subscription events) {other : UInt64}
    (stays : live = true → id ≠ other) :
    (hub.act (.unsubscribe other)).Feeds id live subscription events := by
  by_cases isOther : id = other
  · subst isOther
    cases live with
    | true => exact absurd rfl (stays rfl)
    | false =>
      have left := withId_unsubscribe_self hub id
      rw [feeds.stored, feeds.parted] at left
      exact ⟨left.1, left.2, feeds.told⟩
  · have kept := withId_unsubscribe_of_ne hub isOther
    exact ⟨kept.1.trans feeds.stored, kept.2.trans feeds.parted, feeds.told⟩

/-- A subscription that ends leaves the store with all its events. -/
theorem Feeds.leave {hub : Hub F} {id : UInt64} {subscription : Subscription F}
    {events : List (SubscriptionEvent F)} (feeds : hub.Feeds id true subscription events) :
    (hub.act (.unsubscribe id)).Feeds id false subscription events := by
  have left := withId_unsubscribe_self hub id
  rw [feeds.stored, feeds.parted] at left
  exact ⟨left.1, left.2, feeds.told⟩

/-- A call tells a subscriber that is still in the store of what it hears, and nobody else. -/
theorem Feeds.call {hub : Hub F} {count : Nat} (numbered : hub.Numbered count) {id : UInt64}
    {live : Bool} {subscription : Subscription F} {events : List (SubscriptionEvent F)}
    (feeds : hub.Feeds id live subscription events) (call : Call F) :
    (hub.act (.call call)).Feeds id live
      (if live then subscription.told (hub.announced (.call call)) else subscription)
      (events ++ if live then (hub.announced (.call call)).filter subscription.hears else []) := by
  have stored : withId id (hub.store.after call).subscriptions.subscriptions =
      (withId id hub.store.subscriptions.subscriptions).map
        (·.told (hub.announced (.call call))) := by
    by_cases subscribes : (Act.call call).isSubscribe = true
    · cases call with
      | subscribe pattern =>
        have differs : hub.store.subscriptions.nextId ≠ id := by
          rintro rfl
          have member : subscription ∈ withId hub.store.subscriptions.nextId hub.held := by
            rw [feeds.held]
            exact List.mem_singleton_self subscription
          obtain ⟨isHeld, isId⟩ := List.mem_filter.mp member
          have below := numbered.below subscription isHeld
          rw [eq_of_beq isId, numbered.next] at below
          exact Nat.lt_irrefl count below
        have noNew : withId id [Subscription.new (F := F) hub.store.subscriptions.nextId pattern] =
            [] := by
          rw [withId, List.filter_cons_of_neg (by simpa [Subscription.new] using differs)]
          rfl
        show withId id (hub.store.subscriptions.subscriptions ++ [.new _ pattern]) = _
        rw [withId, List.filter_append]
        show withId id _ ++ withId id _ = _
        rw [noNew, List.append_nil]
        show _ = (withId id _).map (·.told [])
        simp [Subscription.told]
      | _ => cases subscribes
    · rw [subscriptions_after numbered.consistent.keyed
        (Act.not_subscribe (Bool.eq_false_iff.mpr subscribes)), SubscriptionManager.foldl_tell]
      exact withId_map (f := (·.told (hub.announced (.call call)))) (fun _ => rfl) id _
  cases live with
  | true =>
    refine ⟨?_, feeds.parted, ?_⟩
    · show withId id (hub.store.after call).subscriptions.subscriptions = _
      rw [stored, feeds.stored]
      rfl
    · show hub.received id ++ (subscription.events ++ _) = _
      rw [← List.append_assoc, feeds.told]
      rfl
  | false =>
    refine ⟨?_, feeds.parted, ?_⟩
    · show withId id (hub.store.after call).subscriptions.subscriptions = _
      rw [stored, feeds.stored]
      rfl
    · exact feeds.told.trans (List.append_nil events).symm

/-- The subscriber under an identifier follows a pattern and gets the events. -/
def Follows (hub : Hub F) (id : UInt64) (live : Bool) (pattern : String)
    (events : List (SubscriptionEvent F)) : Prop :=
  ∃ subscription, subscription.pattern = pattern ∧ subscription.validityWindow = none ∧
    hub.Feeds id live subscription events

/-- A subscriber in the store gets what an act announces for its pattern, one that has left
gets nothing. -/
theorem Follows.act {hub : Hub F} {count : Nat} (numbered : hub.Numbered count) {id : UInt64}
    {live : Bool} {pattern : String} {events : List (SubscriptionEvent F)}
    (follows : hub.Follows id live pattern events) {act : Act F}
    (stays : live = true → act ≠ .unsubscribe id) :
    (hub.act act).Follows id live pattern
      (events ++ if live then (hub.announced act).filter (·.concerns pattern) else []) := by
  obtain ⟨subscription, rfl, unbounded, feeds⟩ := follows
  have nothing : (if live then ([] : List (SubscriptionEvent F)).filter
      (·.concerns subscription.pattern) else []) = [] := by cases live <;> rfl
  cases act with
  | poll other =>
    have same : (drain other subscription).pattern = subscription.pattern ∧
        (drain other subscription).validityWindow = subscription.validityWindow := by
      unfold drain
      split <;> exact ⟨rfl, rfl⟩
    rw [announced, nothing, List.append_nil]
    exact ⟨drain other subscription, same.1, same.2.trans unbounded, feeds.poll other⟩
  | unsubscribe other =>
    rw [announced, nothing, List.append_nil]
    refine ⟨subscription, rfl, unbounded, feeds.unsubscribe fun isLive => ?_⟩
    rintro rfl
    exact stays isLive rfl
  | call call =>
    have next := feeds.call numbered call
    rw [Subscription.hears_eq_concerns unbounded] at next
    cases live with
    | true =>
      exact ⟨subscription.told (hub.announced (.call call)), rfl, unbounded, next⟩
    | false => exact ⟨subscription, rfl, unbounded, next⟩

theorem Follows.run (acts : List (Act F)) : ∀ {hub : Hub F} {count : Nat} {id : UInt64}
    {live : Bool} {pattern : String} {events : List (SubscriptionEvent F)},
    hub.Numbered count → count + acts.countP Act.isSubscribe < 2 ^ 64 →
    hub.Follows id live pattern events → (live = true → ∀ act ∈ acts, act ≠ .unsubscribe id) →
    (hub.run acts).Follows id live pattern
      (events ++ if live then (hub.announcements acts).filter (·.concerns pattern) else []) := by
  induction acts with
  | nil =>
    intro hub count id live pattern events _ _ follows _
    have nothing : (if live then ([] : List (SubscriptionEvent F)).filter
        (·.concerns pattern) else []) = [] := by cases live <;> rfl
    rw [announcements, nothing, List.append_nil]
    exact follows
  | cons act rest inductionHypothesis =>
    intro hub count id live pattern events numbered room follows stays
    have split : (act :: rest).countP Act.isSubscribe =
        [act].countP Act.isSubscribe + rest.countP Act.isSubscribe := by
      rw [← List.countP_append, List.singleton_append]
    rw [split, ← Nat.add_assoc] at room
    have next := inductionHypothesis
      (numbered.act act (Nat.lt_of_le_of_lt (Nat.le_add_right _ _) room)) room
      (follows.act numbered fun isLive => stays isLive act List.mem_cons_self)
      (fun isLive other member => stays isLive other (List.mem_cons_of_mem act member))
    rw [List.append_assoc] at next
    rw [announcements, List.filter_append]
    cases live with
    | true => exact next
    | false => exact next

/-! ### Whole runs -/

theorem numbered_start (nodeOrder : Hash.Order NodeId) (hasher : Cf → Hash.Order (List UInt8))
    (registry : MorphemeRegistry) :
    (start nodeOrder hasher registry : Hub F).Numbered 0 := by
  refine ⟨consistent_empty nodeOrder hasher registry, ?_, ?_, fun _ _ => rfl⟩
  · rw [start, MemStore.empty_eq]
    rfl
  · have nobody : (start nodeOrder hasher registry : Hub F).held = [] := by
      rw [held, start, MemStore.empty_eq]
      rfl
    rw [nobody]
    exact List.forall_mem_nil _

/-- A new subscriber has no events. -/
theorem follows_subscribe {hub : Hub F} {count : Nat} (numbered : hub.Numbered count)
    (pattern : String) :
    (hub.act (.call (.subscribe pattern))).Follows hub.store.subscriptions.nextId true pattern
      [] := by
  have fresh : ∀ subscriptions : List (Subscription F),
      (∀ subscription ∈ subscriptions, subscription ∈ hub.held) →
      withId hub.store.subscriptions.nextId subscriptions = [] := by
    intro subscriptions allHeld
    rw [withId, List.filter_eq_nil_iff]
    intro subscription member isId
    have below := numbered.below subscription (allHeld subscription member)
    rw [eq_of_beq isId, numbered.next] at below
    exact Nat.lt_irrefl count below
  refine ⟨.new hub.store.subscriptions.nextId pattern, rfl, rfl, ?_, ?_, ?_⟩
  · show withId _ (hub.store.subscriptions.subscriptions ++ [.new _ pattern]) = _
    rw [withId, List.filter_append]
    show withId _ _ ++ withId _ _ = _
    rw [fresh _ fun _ member => List.mem_append_left _ member, withId,
      List.filter_cons_of_pos (by simp [Subscription.new])]
    rfl
  · exact fresh _ fun _ member => List.mem_append_right _ member
  · exact (List.append_nil _).trans (numbered.unseen _ numbered.next.ge)

theorem run_append (hub : Hub F) (acts later : List (Act F)) :
    hub.run (acts ++ later) = (hub.run acts).run later := List.foldl_append

/-- A subscriber is told, in order and each once, of what is announced for its pattern from its
subscription on, and of nothing after it unsubscribes, however it and the others poll. -/
theorem subscriber_told (nodeOrder : Hash.Order NodeId) (hasher : Cf → Hash.Order (List UInt8))
    (registry : MorphemeRegistry) (before during later : List (Act F)) (pattern : String)
    (few : (before ++ .call (.subscribe pattern) :: (during ++ later)).countP Act.isSubscribe <
      2 ^ 64)
    (stays : ∀ act ∈ during, act ≠
      .unsubscribe ((start nodeOrder hasher registry).run before).store.subscriptions.nextId) :
    let joined := ((start nodeOrder hasher registry).run before).act (.call (.subscribe pattern))
    let id := ((start nodeOrder hasher registry).run before).store.subscriptions.nextId
    let heard := (joined.announcements during).filter (·.concerns pattern)
    (joined.run during).delivered id = heard ∧
      (((joined.run during).act (.unsubscribe id)).run later).delivered id = heard := by
  intro joined id heard
  rw [List.countP_append, List.countP_cons_of_pos rfl, List.countP_append] at few
  have numbered := (numbered_start nodeOrder hasher registry).run before (by omega)
  have follows := follows_subscribe numbered pattern
  have numberedJoined := numbered.act (.call (.subscribe pattern)) (by
    show _ + 1 < _
    omega)
  have roomDuring : 0 + before.countP Act.isSubscribe +
      [(Act.call (.subscribe pattern) : Act F)].countP Act.isSubscribe +
        during.countP Act.isSubscribe < 2 ^ 64 := by
    show 0 + _ + 1 + _ < _
    omega
  have told := follows.run during numberedJoined roomDuring fun _ => stays
  obtain ⟨subscription, isPattern, unbounded, feeds⟩ := told
  have numberedLeft := (numberedJoined.run during roomDuring).act (.unsubscribe id) (by
    show 0 + _ + 1 + _ + 0 < _
    omega)
  have left : ((joined.run during).act (.unsubscribe id)).Follows id false pattern heard :=
    ⟨subscription, isPattern, unbounded, feeds.leave⟩
  have still := left.run later numberedLeft (by
    show 0 + _ + 1 + _ + 0 + _ < _
    omega) fun isLive => absurd isLive Bool.false_ne_true
  obtain ⟨last, _, _, feedsLast⟩ := still
  exact ⟨feeds.delivered, feedsLast.delivered.trans (List.append_nil _)⟩

/-- A node that is inserted, polled by someone else, and retracted. -/
def premiseActs : List (Act Rat) :=
  [.call (.insert premise), .poll 7, .call (.retractWithLimit ⟨"n1"⟩ 5)]

/-- The property at a subscriber that never polls. -/
theorem subscriber_told_premise :
    ((((start (.asStored _) (fun _ => .asStored _) .new).run []).act
      (.call (.subscribe "located-in"))).run premiseActs).delivered 0 =
      [.inserted premise, .retracted ⟨"n1"⟩ [⟨"n1"⟩]] := by
  have told := subscriber_told (.asStored _) (fun _ => .asStored _) .new [] premiseActs []
    "located-in" (by decide) (by simp [premiseActs])
  exact told.1.trans (by decide +kernel)

end Hub

end Factum
