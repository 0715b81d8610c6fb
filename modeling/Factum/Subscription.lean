/-
This file embeds subscriptions: who watches which predicates, and the queue of
events that each subscriber has not polled yet.
-/

import Factum.Types

namespace Factum

/-- Events that subscribers receive. -/
inductive SubscriptionEvent (F : Type) where
  | inserted (node : Node F)
  | retracted (id : NodeId) (cascade : List NodeId)
deriving DecidableEq

/-- A subscription to node changes that match a pattern. -/
structure Subscription (F : Type) where
  pattern : String
  validityWindow : Option (DateTime × Option DateTime)
  events : List (SubscriptionEvent F)
  id : UInt64
deriving DecidableEq

namespace Subscription

variable {F : Type}

/-- A subscription to which nothing was pushed. -/
def new (id : UInt64) (pattern : String) : Subscription F := ⟨pattern, none, [], id⟩

/-- Push an event. -/
def push (subscription : Subscription F) (event : SubscriptionEvent F) : Subscription F :=
  { subscription with events := subscription.events ++ [event] }

/-- Whether the subscription matches a node: its head by name, and the start of the window. -/
def «matches» (subscription : Subscription F) (node : Node F) : Bool :=
  match node.predicate.head with
  | .id _ => false
  | .name headName =>
    if subscription.pattern != headName && subscription.pattern != "*" then false
    else
      match subscription.validityWindow with
      | some (from_, _) => node.validity.isValidAt from_
      | none => true

end Subscription

/-- Subscription manager. -/
structure SubscriptionManager (F : Type) where
  subscriptions : List (Subscription F)
  nextId : UInt64
deriving DecidableEq

namespace SubscriptionManager

variable {F : Type}

/-- No subscriptions. -/
def new : SubscriptionManager F := ⟨[], 0⟩

/-- Create a new subscription. -/
def subscribe (manager : SubscriptionManager F) (pattern : String) : SubscriptionManager F where
  subscriptions := manager.subscriptions ++ [.new manager.nextId pattern]
  nextId := manager.nextId + 1

/-- Notify all subscribers of a new node. -/
def notifyInsert (manager : SubscriptionManager F) (node : Node F) : SubscriptionManager F :=
  { manager with subscriptions := manager.subscriptions.map fun subscription =>
      if subscription.matches node then subscription.push (.inserted node) else subscription }

/-- Notify all subscribers of a retraction. -/
def notifyRetract (manager : SubscriptionManager F) (id : NodeId) (cascade : List NodeId) :
    SubscriptionManager F :=
  { manager with subscriptions := manager.subscriptions.map (·.push (.retracted id cascade)) }

/-- Unsubscribe. -/
def unsubscribe (manager : SubscriptionManager F) (id : UInt64) : SubscriptionManager F :=
  { manager with subscriptions := manager.subscriptions.filter (·.id != id) }

end SubscriptionManager

end Factum
