/-
This file is about runs of the review queue.

An event gets the next identifier when it is enqueued, so fewer than `2 ^ 64` events have
different ones, in the order in which they come. A call that resolves an event changes its
status and nothing else, so up to their statuses the events of a queue are those that were
enqueued, in some order. The calls that approve or reject look at the status first; the
call of the system does not, and can overwrite a decision.
-/

import Mathlib.Data.List.Induction
import Factum.Review
import Factum.Library.Steps

namespace Factum

namespace ReviewQueue

/-! ### Calls -/

/-- A call of the queue that changes it. An event is enqueued at an instant. -/
inductive Call where
  | enqueue (eventType : ReviewEventType) (priority : ReviewPriority) (nodeIds : List String)
      (reason : String) (now : DateTime)
  | approve (id : UInt64)
  | reject (id : UInt64)
  | autoResolve (id : UInt64)

/-- The event that a call resolves if it succeeds. -/
def Call.names : Call → Option UInt64
  | .enqueue .. => none
  | .approve id | .reject id | .autoResolve id => some id

/-- The queue after a call. A call that fails leaves it as it was. -/
def after (queue : ReviewQueue) : Call → ReviewQueue
  | .enqueue eventType priority nodeIds reason now =>
    queue.enqueue eventType priority nodeIds reason now
  | .approve id => (queue.approve id).toOption.getD queue
  | .reject id => (queue.reject id).toOption.getD queue
  | .autoResolve id => (queue.autoResolve id).toOption.getD queue

/-- The queue after some calls. -/
def run (queue : ReviewQueue) (calls : List Call) : ReviewQueue := calls.foldl after queue

/-- The events that calls enqueue, as they are enqueued. -/
def issued : ReviewQueue → List Call → List ReviewEvent
  | _, [] => []
  | queue, .enqueue eventType priority nodeIds reason now :: rest =>
    ⟨queue.nextId, eventType, priority, nodeIds, reason, now.timestamp, .pending⟩ ::
      issued (queue.after (.enqueue eventType priority nodeIds reason now)) rest
  | queue, call :: rest => issued (queue.after call) rest

/-- The event as it was enqueued. -/
def asEnqueued (event : ReviewEvent) : ReviewEvent := { event with status := .pending }

/-! ### What a call does -/

/-- A call that resolves an event gives its status to the first event with the identifier, or
does nothing. -/
theorem after_resolving {call : Call} {id : UInt64} (names : call.names = some id)
    (queue : ReviewQueue) : queue.after call = queue ∨
      ∃ status, queue.after call = { queue with events := setStatus status id queue.events } := by
  have decides : ∀ (status : ReviewStatus) (verb : String),
      (decideWith status verb queue id).toOption.getD queue = queue ∨
        ∃ given, (decideWith status verb queue id).toOption.getD queue =
          { queue with events := setStatus given id queue.events } := by
    intro status verb
    unfold decideWith
    cases queue.get id with
    | none => exact .inl rfl
    | some event =>
      dsimp only
      split_ifs
      · exact .inl rfl
      · exact .inr ⟨status, rfl⟩
  cases call with
  | enqueue => cases names
  | approve =>
    cases names
    exact decides .approved "approve"
  | reject =>
    cases names
    exact decides .rejected "reject"
  | autoResolve =>
    cases names
    show (queue.autoResolve id).toOption.getD queue = queue ∨ _
    rw [after, autoResolve]
    cases queue.get id with
    | none => exact .inl rfl
    | some event => exact .inr ⟨.autoResolved, rfl⟩

theorem map_asEnqueued_setStatus (status : ReviewStatus) (id : UInt64)
    (events : List ReviewEvent) :
    (setStatus status id events).map asEnqueued = events.map asEnqueued := by
  induction events with
  | nil => rfl
  | cons event rest inductionHypothesis =>
    rw [setStatus]
    split_ifs
    · rfl
    · rw [List.map_cons, List.map_cons, inductionHypothesis]

/-- Events of other identifiers are found as before. -/
theorem find?_setStatus {id other : UInt64} (different : other ≠ id) (status : ReviewStatus)
    (events : List ReviewEvent) :
    (setStatus status id events).find? (·.id == other) = events.find? (·.id == other) := by
  induction events with
  | nil => rfl
  | cons event rest inductionHypothesis =>
    rw [setStatus]
    split_ifs with same
    · have isOther : (event.id == other) = false := by
        rw [same]
        exact beq_eq_false_iff_ne.mpr different.symm
      rw [List.find?_cons, List.find?_cons, isOther]
    · rw [List.find?_cons, List.find?_cons, inductionHypothesis]

theorem perm_enqueue (queue : ReviewQueue) (eventType : ReviewEventType)
    (priority : ReviewPriority) (nodeIds : List String) (reason : String) (now : DateTime) :
    (queue.enqueue eventType priority nodeIds reason now).events.Perm
      (⟨queue.nextId, eventType, priority, nodeIds, reason, now.timestamp, .pending⟩ ::
        queue.events) := by
  refine List.perm_insertIdx _ _ ?_
  cases found : queue.events.findIdx? (goesBefore priority) with
  | none => exact le_rfl
  | some pos => exact (List.findIdx?_eq_some_iff_getElem.mp found).choose.le

/-! ### Runs -/

/-- The identifiers are given in order, and the events are those that were enqueued. -/
structure Numbered (issued : List ReviewEvent) (queue : ReviewQueue) : Prop where
  nextId : queue.nextId = UInt64.ofNat (issued.length + 1)
  ids : issued.map (·.id) = (List.range' 1 issued.length).map UInt64.ofNat
  kept : (queue.events.map asEnqueued).Perm issued

theorem numbered_new : Numbered [] new := ⟨rfl, rfl, .refl []⟩

theorem Numbered.enqueue {before : List ReviewEvent} {queue : ReviewQueue}
    (numbered : Numbered before queue) (eventType : ReviewEventType)
    (priority : ReviewPriority) (nodeIds : List String) (reason : String) (now : DateTime) :
    Numbered
      (before ++ [⟨queue.nextId, eventType, priority, nodeIds, reason, now.timestamp, .pending⟩])
      (queue.enqueue eventType priority nodeIds reason now) where
  nextId := by
    show queue.nextId + 1 = _
    rw [numbered.nextId, List.length_append, List.length_singleton,
      UInt64.ofNat_add (before.length + 1)]
    rfl
  ids := by
    rw [List.map_append, numbered.ids, List.length_append, List.length_singleton,
      List.range'_concat, List.map_append, List.map_singleton, List.map_singleton,
      numbered.nextId, Nat.one_mul, Nat.add_comm 1]
  kept := by
    have inserted := (queue.perm_enqueue eventType priority nodeIds reason now).map asEnqueued
    exact (inserted.trans (numbered.kept.cons _)).trans (List.perm_append_singleton _ _).symm

theorem Numbered.resolve {before : List ReviewEvent} {queue : ReviewQueue}
    (numbered : Numbered before queue) (call : Call) {id : UInt64}
    (names : call.names = some id) : Numbered before (queue.after call) := by
  rcases after_resolving names queue with same | ⟨status, same⟩
  · rwa [same]
  · rw [same]
    exact ⟨numbered.nextId, numbered.ids, by
      rw [map_asEnqueued_setStatus]
      exact numbered.kept⟩

theorem Numbered.run {before : List ReviewEvent} {queue : ReviewQueue} (calls : List Call)
    (numbered : Numbered before queue) :
    Numbered (before ++ issued queue calls) (queue.run calls) := by
  induction calls generalizing before queue with
  | nil =>
    rw [issued, List.append_nil]
    exact numbered
  | cons call rest inductionHypothesis =>
    cases call with
    | enqueue eventType priority nodeIds reason now =>
      have later := inductionHypothesis (numbered.enqueue eventType priority nodeIds reason now)
      rw [List.append_assoc] at later
      exact later
    | approve id => exact inductionHypothesis (numbered.resolve (.approve id) rfl)
    | reject id => exact inductionHypothesis (numbered.resolve (.reject id) rfl)
    | autoResolve id => exact inductionHypothesis (numbered.resolve (.autoResolve id) rfl)

/-! ### Integrity -/

/-- Whether a call enqueues an event. -/
def Call.enqueues : Call → Bool
  | .enqueue .. => true
  | _ => false

theorem length_issued (calls : List Call) :
    ∀ queue : ReviewQueue, (issued queue calls).length = calls.countP (·.enqueues) := by
  induction calls with
  | nil => exact fun _ => rfl
  | cons call rest inductionHypothesis =>
    intro queue
    rw [List.countP_cons]
    cases call with
    | enqueue eventType priority nodeIds reason now =>
      exact congrArg (· + 1) (inductionHypothesis _)
    | approve id => exact inductionHypothesis _
    | reject id => exact inductionHypothesis _
    | autoResolve id => exact inductionHypothesis _

/-- An event is listed before another: of high priority before normal, then by its
identifier. -/
def ListedFirst (first second : ReviewEvent) : Prop :=
  first.priority = .high ∧ second.priority = .normal ∨
    first.priority = second.priority ∧ first.id < second.id

/-- The events of a queue are those that were issued, and are listed as such. -/
structure Intact (issued : List ReviewEvent) (queue : ReviewQueue) : Prop where
  /-- Identifiers are unique and increase in the order in which the events are enqueued. -/
  increasing : issued.Pairwise fun first second => first.id < second.id
  /-- Up to the statuses, the events are those that were enqueued. -/
  kept : (queue.events.map asEnqueued).Perm issued
  pending : queue.listPending.Perm (queue.events.filter (·.isPending))
  pendingSorted : queue.listPending.Pairwise ListedFirst
  all : queue.listAll.Perm queue.events
  newestFirst : queue.listAll.Pairwise fun first second => second.id < first.id
  /-- A call that resolves an event leaves the others alone. -/
  others : ∀ call id, call.names = some id → ∀ other, other ≠ id →
    (queue.after call).get other = queue.get other

/-- Fewer than `2 ^ 64` identifiers are given in increasing order. -/
theorem Numbered.increasing {before : List ReviewEvent} {queue : ReviewQueue}
    (numbered : Numbered before queue) (few : before.length < 2 ^ 64) :
    before.Pairwise fun first second => first.id < second.id := by
  have increasing : ((List.range' 1 before.length).map UInt64.ofNat).Pairwise (· < ·) := by
    rw [List.pairwise_map]
    refine List.Pairwise.imp_of_mem (fun {first second} isFirst isSecond less => ?_)
      List.pairwise_lt_range'
    obtain ⟨_, small⟩ := List.mem_range'_1.mp isFirst
    obtain ⟨_, small'⟩ := List.mem_range'_1.mp isSecond
    rw [UInt64.lt_iff_toNat_lt, UInt64.toNat_ofNat_of_lt' (by rw [UInt64.size]; omega),
      UInt64.toNat_ofNat_of_lt' (by rw [UInt64.size]; omega)]
    exact less
  rw [← numbered.ids, List.pairwise_map] at increasing
  exact increasing

/-- The identifiers of the events are unique where those that were issued are. -/
theorem Numbered.nodup {before : List ReviewEvent} {queue : ReviewQueue}
    (numbered : Numbered before queue) (few : before.length < 2 ^ 64) :
    (queue.events.map (·.id)).Nodup := by
  have ids : queue.events.map (·.id) = (queue.events.map asEnqueued).map (·.id) := by
    rw [List.map_map]
    rfl
  have distinct : (before.map (·.id)).Nodup :=
    List.pairwise_map.mpr ((numbered.increasing few).imp fun less => UInt64.ne_of_lt less)
  rw [ids]
  exact (numbered.kept.map (·.id)).nodup_iff.mpr distinct

/-- Sorting by an order that tells events of different identifiers apart is strict. -/
theorem pairwise_strict {before strict : ReviewEvent → ReviewEvent → Prop}
    {events : List ReviewEvent} (sorted : events.Pairwise before)
    (nodup : (events.map (·.id)).Nodup)
    (tells : ∀ first second, before first second → first.id ≠ second.id → strict first second) :
    events.Pairwise strict :=
  (sorted.and (List.pairwise_map.mp nodup)).imp fun both => tells _ _ both.1 both.2

theorem listedBefore_iff (first second : ReviewEvent) : listedBefore first second = true ↔
    first.priority = .high ∧ second.priority = .normal ∨
      first.priority = second.priority ∧ first.id ≤ second.id := by
  rw [listedBefore]
  cases first.priority <;> cases second.priority <;> simp

theorem pairwise_listPending (queue : ReviewQueue) :
    queue.listPending.Pairwise fun first second => listedBefore first second = true := by
  refine List.pairwise_mergeSort (fun first second third => ?_) (fun first second => ?_) _
  · simp only [listedBefore_iff]
    rintro (⟨isHigh, isNormal⟩ | ⟨same, less⟩) (⟨isHigh', isNormal'⟩ | ⟨same', less'⟩)
    · exact .inl ⟨isHigh, isNormal'⟩
    · exact .inl ⟨isHigh, same'.symm.trans isNormal⟩
    · exact .inl ⟨same.trans isHigh', isNormal'⟩
    · exact .inr ⟨same.trans same', UInt64.le_trans less less'⟩
  · rw [Bool.or_eq_true, listedBefore_iff, listedBefore_iff]
    have total := UInt64.le_total first.id second.id
    cases first.priority <;> cases second.priority <;> simp [total]

theorem pairwise_listAll (queue : ReviewQueue) :
    queue.listAll.Pairwise fun first second => decide (second.id ≤ first.id) = true := by
  refine List.pairwise_mergeSort (fun first second third less less' => ?_)
    (fun first second => ?_) _
  · exact decide_eq_true (UInt64.le_trans (of_decide_eq_true less') (of_decide_eq_true less))
  · rw [Bool.or_eq_true, decide_eq_true_eq, decide_eq_true_eq]
    exact UInt64.le_total _ _

/-- After fewer than `2 ^ 64` enqueues, whatever is resolved in between, the queue holds each
event once and lists it in order. -/
theorem run_intact (calls : List Call) (few : calls.countP (·.enqueues) < 2 ^ 64) :
    Intact (issued new calls) (new.run calls) := by
  have numbered : Numbered (issued new calls) (new.run calls) := numbered_new.run calls
  rw [← length_issued calls new] at few
  have nodup := numbered.nodup few
  have pending : (new.run calls).listPending.Perm
      ((new.run calls).events.filter (·.isPending)) := List.mergeSort_perm _ _
  have all : (new.run calls).listAll.Perm (new.run calls).events :=
    (List.mergeSort_perm _ _).trans (List.reverse_perm _)
  refine ⟨numbered.increasing few, numbered.kept, pending, ?_, all, ?_, ?_⟩
  · refine pairwise_strict (pairwise_listPending _) ?_ fun first second less different => ?_
    · exact (pending.map _).nodup_iff.mpr (nodup.sublist (List.filter_sublist.map _))
    · rcases (listedBefore_iff first second).mp less with higher | ⟨same, notAfter⟩
      · exact .inl higher
      · exact .inr ⟨same, UInt64.lt_of_le_of_ne notAfter different⟩
  · refine pairwise_strict (pairwise_listAll _) ?_ fun first second less different => ?_
    · exact (all.map _).nodup_iff.mpr nodup
    · exact UInt64.lt_of_le_of_ne (of_decide_eq_true less) different.symm
  · intro call id names other different
    rcases after_resolving names (new.run calls) with same | ⟨status, same⟩
    · rw [same]
    · rw [same]
      exact find?_setStatus different status _

/-! ### Finality -/

/-- What is decided in a queue is in a later one as it was. -/
def Final (queue later : ReviewQueue) : Prop :=
  ∀ event : ReviewEvent, event.status ≠ .pending →
    queue.events.count event ≤ later.events.count event

/-- The system resolves an event that was approved or rejected. -/
def Overwrites (queue : ReviewQueue) (call : Call) : Prop :=
  ∃ id event, call = .autoResolve id ∧ queue.get id = some event ∧
    (event.status = .approved ∨ event.status = .rejected)

theorem Final.refl (queue : ReviewQueue) : Final queue queue := fun _ _ => le_rfl

theorem Final.trans {first second third : ReviewQueue} (final : Final first second)
    (final' : Final second third) : Final first third :=
  fun event decided => (final event decided).trans (final' event decided)

/-- The first event with the identifier gets the status. -/
theorem setStatus_of_find? {id : UInt64} {found : ReviewEvent} (status : ReviewStatus)
    {events : List ReviewEvent} (first : events.find? (·.id == id) = some found) :
    ∃ front rest, events = front ++ found :: rest ∧
      setStatus status id events = front ++ { found with status := status } :: rest := by
  induction events with
  | nil => cases first
  | cons event rest inductionHypothesis =>
    rw [List.find?_cons] at first
    rw [setStatus]
    by_cases same : event.id = id
    · rw [beq_iff_eq.mpr same] at first
      obtain rfl := Option.some.inj first
      exact ⟨[], rest, rfl, if_pos same⟩
    · rw [beq_eq_false_iff_ne.mpr same] at first
      obtain ⟨front, rest', rfl, changed⟩ := inductionHypothesis first
      exact ⟨event :: front, rest', rfl, by rw [if_neg same, changed]; rfl⟩

/-- To give an event a status overwrites no decision exactly if it was pending or has that
status already. -/
theorem final_setStatus_iff {queue : ReviewQueue} {id : UInt64} {found : ReviewEvent}
    (first : queue.get id = some found) (status : ReviewStatus) :
    Final queue { queue with events := setStatus status id queue.events } ↔
      found.status = .pending ∨ found.status = status := by
  obtain ⟨front, rest, isEvents, changed⟩ := setStatus_of_find? status first
  simp only [Final, changed]
  simp only [isEvents, List.count_append, List.count_cons]
  constructor
  · intro final
    by_contra neither
    obtain ⟨decided, other⟩ := not_or.mp neither
    have different : ({ found with status := status } : ReviewEvent) ≠ found :=
      fun same => other (congrArg ReviewEvent.status same).symm
    have keeps := final found decided
    rw [if_pos (beq_self_eq_true found), if_neg (by simpa using different)] at keeps
    omega
  · rintro (isPending | same) event decided
    · have different : found ≠ event := fun same => decided (same ▸ isPending)
      rw [if_neg (by simpa using different)]
      omega
    · rw [← same]

/-- A call overwrites no decision unless it is the system's and on an event that was approved
or rejected. -/
theorem final_after_iff (queue : ReviewQueue) (call : Call) :
    Final queue (queue.after call) ↔ ¬ Overwrites queue call := by
  have decides : ∀ (status : ReviewStatus) (verb : String) (id : UInt64),
      Final queue ((decideWith status verb queue id).toOption.getD queue) := by
    intro status verb id
    unfold decideWith
    cases first : queue.get id with
    | none => exact .refl queue
    | some found =>
      dsimp only
      split_ifs with decided
      · exact .refl queue
      · exact (final_setStatus_iff first status).mpr (.inl (not_not.mp decided))
  cases call with
  | enqueue eventType priority nodeIds reason now =>
    refine iff_of_true (fun event _ => ?_) (by rintro ⟨_, _, ⟨⟩, _⟩)
    rw [after, (queue.perm_enqueue eventType priority nodeIds reason now).count_eq]
    exact List.count_le_count_cons
  | approve id => exact iff_of_true (decides .approved "approve" id) (by rintro ⟨_, _, ⟨⟩, _⟩)
  | reject id => exact iff_of_true (decides .rejected "reject" id) (by rintro ⟨_, _, ⟨⟩, _⟩)
  | autoResolve id =>
    rw [after, autoResolve]
    cases first : queue.get id with
    | none =>
      refine iff_of_true (.refl queue) ?_
      rintro ⟨_, _, ⟨⟩, first', _⟩
      rw [first] at first'
      cases first'
    | some found =>
      refine (final_setStatus_iff first .autoResolved).trans ?_
      constructor
      · rintro kept ⟨_, _, ⟨⟩, first', overwritten⟩
        obtain rfl := Option.some.inj (first.symm.trans first')
        rcases kept with kept | kept <;> rcases overwritten with same | same <;>
          cases kept.symm.trans same
      · intro notOverwritten
        cases isStatus : found.status with
        | pending => exact .inl rfl
        | autoResolved => exact .inr rfl
        | approved => exact absurd ⟨id, found, rfl, first, .inl isStatus⟩ notOverwritten
        | rejected => exact absurd ⟨id, found, rfl, first, .inr isStatus⟩ notOverwritten

theorem run_append (queue : ReviewQueue) (first second : List Call) :
    queue.run (first ++ second) = (queue.run first).run second := List.foldl_append

/-- In a run all decisions are final exactly if none of its calls is one of the system on an
event that was approved or rejected. -/
theorem run_final_iff (calls : List Call) :
    (∀ early late, early <+: late → late <+: calls → Final (new.run early) (new.run late)) ↔
      Steps.Along after (fun queue call => ¬ Overwrites queue call) new calls := by
  rw [Steps.along_iff_prefix]
  constructor
  · intro final early call isEarly
    have step := final early (early ++ [call]) (List.prefix_append _ _) isEarly
    rw [run_append] at step
    exact (final_after_iff _ call).mp step
  · rintro good early _ ⟨later, rfl⟩ isLate
    induction later using List.reverseRecOn with
    | nil =>
      rw [List.append_nil]
      exact .refl _
    | append_singleton later call inductionHypothesis =>
      rw [← List.append_assoc] at isLate ⊢
      have step := (final_after_iff _ call).mpr (good (early ++ later) call isLate)
      refine (inductionHypothesis ((List.prefix_append _ _).trans isLate)).trans ?_
      rw [run_append new (early ++ later)]
      exact step

/-- An event is enqueued, approved by a human, and resolved by the system after that. -/
def overruled : List Call :=
  [.enqueue .ambiguousArbitration .normal ["n1"] "" ⟨0, 0, DateTime.zero_inRange⟩, .approve 1,
    .autoResolve 1]

theorem overruled_not_final :
    ¬ ∀ calls early late : List Call, early <+: late → late <+: calls →
      Final (new.run early) (new.run late) := by
  intro every
  have final := every overruled (overruled.take 2) overruled (List.take_prefix 2 overruled)
    (List.prefix_refl overruled)
  have kept := final ⟨1, .ambiguousArbitration, .normal, ["n1"], "", 0, .approved⟩ (by decide)
  exact absurd kept (by decide)

theorem overruled_intact : Intact (issued new overruled) (new.run overruled) :=
  run_intact overruled (by decide)

end ReviewQueue

end Factum
