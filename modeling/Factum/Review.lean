/-
This file embeds the review queue: events that wait for a human decision.

The events are a list, in the order of the deque. An event of high priority is placed
before the first event that is resolved or of normal priority, an event of normal priority
before the first that is resolved. Decisions change the status of one event; nothing is
removed.
-/

import Factum.Host

namespace Factum

/-- Priority level for review events. -/
inductive ReviewPriority where
  | normal
  | high
deriving DecidableEq, Repr

/-- String representation for JSON serialization. -/
def ReviewPriority.asStr : ReviewPriority → String
  | .normal => "Normal"
  | .high => "High"

/-- What triggered a review event. -/
inductive ReviewEventType where
  | ambiguousArbitration
  | bandClippingExceeded
  | cascadeTruncated
deriving DecidableEq, Repr

/-- String representation for JSON serialization. -/
def ReviewEventType.asStr : ReviewEventType → String
  | .ambiguousArbitration => "AmbiguousArbitration"
  | .bandClippingExceeded => "BandClippingExceeded"
  | .cascadeTruncated => "CascadeTruncated"

/-- Status of a review event. -/
inductive ReviewStatus where
  | pending
  | approved
  | rejected
  | autoResolved
deriving DecidableEq, Repr

/-- String representation for JSON serialization, which is the `Debug` text too. -/
def ReviewStatus.asStr : ReviewStatus → String
  | .pending => "Pending"
  | .approved => "Approved"
  | .rejected => "Rejected"
  | .autoResolved => "AutoResolved"

/-- A review event. The timestamp is in seconds. -/
structure ReviewEvent where
  id : UInt64
  eventType : ReviewEventType
  priority : ReviewPriority
  nodeIds : List String
  reason : String
  timestamp : Int
  status : ReviewStatus
deriving DecidableEq, Repr

/-- Whether this event still needs human attention. -/
def ReviewEvent.isPending (event : ReviewEvent) : Bool := event.status == .pending

/-- Review queue. The identifiers are 64-bit integers that wrap around. -/
structure ReviewQueue where
  events : List ReviewEvent
  nextId : UInt64
deriving DecidableEq, Repr

namespace ReviewQueue

/-- Create a new empty review queue. -/
def new : ReviewQueue := ⟨[], 1⟩

/-- Whether an event of a priority is placed before this event. -/
def goesBefore (priority : ReviewPriority) (event : ReviewEvent) : Bool :=
  match priority with
  | .high => !event.isPending || event.priority == .normal
  | .normal => !event.isPending

/-- Enqueue a new review event at an instant. -/
def enqueue (queue : ReviewQueue) (eventType : ReviewEventType) (priority : ReviewPriority)
    (nodeIds : List String) (reason : String) (now : DateTime) : ReviewQueue :=
  let event : ReviewEvent :=
    ⟨queue.nextId, eventType, priority, nodeIds, reason, now.timestamp, .pending⟩
  let pos := (queue.events.findIdx? (goesBefore priority)).getD queue.events.length
  ⟨queue.events.insertIdx pos event, queue.nextId + 1⟩

/-- Whether a pending event is listed before another: high priority first, then by ID. -/
def listedBefore (a b : ReviewEvent) : Bool :=
  if a.priority = b.priority then decide (a.id ≤ b.id) else a.priority == .high

/-- List all pending events, sorted by priority. -/
def listPending (queue : ReviewQueue) : List ReviewEvent :=
  (queue.events.filter (·.isPending)).mergeSort listedBefore

/-- List all events, newest first. -/
def listAll (queue : ReviewQueue) : List ReviewEvent :=
  queue.events.reverse.mergeSort fun a b => decide (b.id ≤ a.id)

/-- Get a specific event by ID. -/
def get (queue : ReviewQueue) (id : UInt64) : Option ReviewEvent :=
  queue.events.find? (·.id == id)

/-- Give the first event with an ID a status. -/
def setStatus (status : ReviewStatus) (id : UInt64) : List ReviewEvent → List ReviewEvent
  | [] => []
  | event :: rest =>
    if event.id = id then { event with status := status } :: rest
    else event :: setStatus status id rest

/-- Mark a pending event as decided. The verb is what the error says cannot be done. -/
def decideWith (status : ReviewStatus) (verb : String) (queue : ReviewQueue) (id : UInt64) :
    Except String ReviewQueue :=
  match queue.get id with
  | none => .error ("review event " ++ toString id ++ " not found")
  | some event =>
    if event.status ≠ .pending then
      .error ("event " ++ toString id ++ " is already " ++ event.status.asStr ++ ", cannot " ++
        verb)
    else .ok { queue with events := setStatus status id queue.events }

/-- Mark an event as approved. -/
def approve : ReviewQueue → UInt64 → Except String ReviewQueue := decideWith .approved "approve"

/-- Mark an event as rejected. -/
def reject : ReviewQueue → UInt64 → Except String ReviewQueue := decideWith .rejected "reject"

/-- Mark an event as resolved by the system, whatever its status. -/
def autoResolve (queue : ReviewQueue) (id : UInt64) : Except String ReviewQueue :=
  match queue.get id with
  | none => .error ("review event " ++ toString id ++ " not found")
  | some _ => .ok { queue with events := setStatus .autoResolved id queue.events }

/-- Count of pending events. -/
def pendingCount (queue : ReviewQueue) : Nat := queue.events.countP (·.isPending)

/-! ### What the operations do to the events -/

/-- The later queue holds an event more often. -/
def Adds (queue later : ReviewQueue) (event : ReviewEvent) : Prop :=
  queue.events.count event < later.events.count event

/-- An enqueued event is added and pending. -/
theorem adds_enqueue (queue : ReviewQueue) (eventType : ReviewEventType)
    (priority : ReviewPriority) (nodeIds : List String) (reason : String) (now : DateTime) :
    Adds queue (queue.enqueue eventType priority nodeIds reason now)
      ⟨queue.nextId, eventType, priority, nodeIds, reason, now.timestamp, .pending⟩ := by
  have within : (queue.events.findIdx? (goesBefore priority)).getD queue.events.length ≤
      queue.events.length := by
    cases found : queue.events.findIdx? (goesBefore priority) with
    | none => exact le_rfl
    | some pos => exact (List.findIdx?_eq_some_iff_getElem.mp found).choose.le
  have inserted := List.perm_insertIdx
    (⟨queue.nextId, eventType, priority, nodeIds, reason, now.timestamp, .pending⟩ : ReviewEvent)
    queue.events within
  rw [Adds, enqueue, inserted.count_eq, List.count_cons_self]
  exact Nat.lt_succ_self _

theorem not_adds_self (queue : ReviewQueue) (event : ReviewEvent) : ¬ Adds queue queue event :=
  lt_irrefl _

theorem enqueue_ne (queue : ReviewQueue) (eventType : ReviewEventType)
    (priority : ReviewPriority) (nodeIds : List String) (reason : String) (now : DateTime) :
    queue.enqueue eventType priority nodeIds reason now ≠ queue := by
  intro same
  have adds := adds_enqueue queue eventType priority nodeIds reason now
  rw [same] at adds
  exact not_adds_self queue _ adds

/-- Events of other statuses do not become more. -/
theorem count_setStatus_le {status : ReviewStatus} {event : ReviewEvent}
    (other : event.status ≠ status) (id : UInt64) (events : List ReviewEvent) :
    (setStatus status id events).count event ≤ events.count event := by
  induction events with
  | nil => exact le_rfl
  | cons head rest inductionHypothesis =>
    rw [setStatus]
    split_ifs
    · have changed : ({ head with status := status } : ReviewEvent) ≠ event :=
        fun same => other (same ▸ rfl)
      rw [List.count_cons_of_ne changed, List.count_cons]
      exact Nat.le_add_right _ _
    · rw [List.count_cons, List.count_cons]
      exact Nat.add_le_add_right inductionHypothesis _

/-- A decision adds no event of another status. -/
theorem not_adds_decideWith {status : ReviewStatus} {verb : String} {queue later : ReviewQueue}
    {id : UInt64} (decided : decideWith status verb queue id = .ok later) {event : ReviewEvent}
    (other : event.status ≠ status) : ¬ Adds queue later event := by
  unfold decideWith at decided
  cases found : queue.get id with
  | none =>
    rw [found] at decided
    cases decided
  | some pending =>
    rw [found] at decided
    dsimp only at decided
    split_ifs at decided
    cases decided
    exact (count_setStatus_le other id queue.events).not_gt

end ReviewQueue

end Factum
