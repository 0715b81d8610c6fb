/-
This file is about backend calls that fail.

Each call of the store makes several calls on its backend, and any of them may fail.
A method that has changed nothing yet may pass the error on; one that has written to
the log or to the backend may not, since nothing is ever undone. To say which calls
failed, and when, a store is watched: it runs over a backend that notes how each call
on it went and otherwise does what the backend below it does.
-/

import Factum.Contract
import Factum.Retraction

namespace Factum

open Stateful Simulation

variable {F B : Type}

/-! ### Watching a backend -/

/-- How a call on a backend went: whether it was a write, and whether it failed. -/
structure BackendEvent where
  writes : Bool
  failed : Bool
deriving DecidableEq, Repr

/-- A backend and how the calls on it went. -/
structure Watched (B : Type) where
  backend : B
  events : List BackendEvent

namespace Watched

/-- Note how a call goes. -/
def note {α : Type} (writes : Bool) (call : BackendM B α) : BackendM (Watched B) α :=
  fun watched =>
    match call watched.backend with
    | .ok value after => .ok value ⟨after, watched.events ++ [⟨writes, false⟩]⟩
    | .error error after => .error error ⟨after, watched.events ++ [⟨writes, true⟩]⟩

instance [StorageBackend F B] : StorageBackend F (Watched B) where
  getNode id := note false (StorageBackend.getNode id)
  putNode node := note true (StorageBackend.putNode node)
  deleteNode id := note true (StorageBackend.deleteNode id)
  scanIndex cf key := note false (StorageBackend.scanIndex cf key)
  putIndex cf key id := note true (StorageBackend.putIndex cf key id)
  deleteIndex cf key id := note true (StorageBackend.deleteIndex cf key id)
  batchWrite ops := note true (StorageBackend.batchWrite ops)
  len := note false StorageBackend.len
  iterNodes := note false StorageBackend.iterNodes

/-- A backend and the same backend watched. -/
def Watches (backend : B) (watched : Watched B) : Prop := watched.backend = backend

theorem agree_note {α : Type} (writes : Bool) (call : BackendM B α) :
    Agree Watches call (note writes call) := by
  rintro backend watched rfl
  unfold note
  cases call watched.backend with
  | ok value after => exact ⟨rfl, rfl⟩
  | error error after => exact ⟨rfl, rfl⟩

/-- Watching changes nothing. -/
theorem callsAgree [StorageBackend F B] :
    CallsAgree (F := F) (Watches (B := B)) (fun _ => True) where
  getNode _ := agree_note _ _
  returns _ _ _ _ _ _ _ := trivial
  putNode _ _ := agree_note _ _
  batchWrite _ _ _ := agree_note _ _
  retract _ _ := trivial

end Watched

namespace FactumStore

/-- The store over the same backend, watched from here on. -/
def watched (store : FactumStore F B) : FactumStore F (Watched B) :=
  { store with backend := ⟨store.backend, []⟩ }

theorem inStep_watched (store : FactumStore F B) :
    InStep Watched.Watches store store.watched where
  backend := rfl
  depsRev := rfl
  byValidity := rfl
  registry := rfl
  wal := rfl
  subscriptions := rfl
  verifiers := rfl

/-- The watched store after a call on its backend. -/
def noted (store : FactumStore F (Watched B)) (backend : B) (writes failed : Bool) :
    FactumStore F (Watched B) :=
  { store with backend := ⟨backend, store.backend.events ++ [⟨writes, failed⟩]⟩ }

theorem callBackend_ok {α : Type} {call : BackendM B α} {before after : FactumStore F B} {value : α}
    (ran : callBackend call before = .ok value after) :
    ∃ backend, call before.backend = .ok value backend ∧
      after = { before with backend := backend } := by
  unfold callBackend at ran
  cases called : call before.backend with
  | ok value' backend =>
    rw [called] at ran
    injection ran with isValue isAfter
    exact ⟨backend, by rw [isValue], isAfter.symm⟩
  | error error backend =>
    rw [called] at ran
    cases ran

theorem callBackend_error {α : Type} {call : BackendM B α} {before after : FactumStore F B}
    {stop : Stop StoreError} (ran : callBackend call before = .error stop after) :
    ∃ error backend, call before.backend = .error error backend ∧
      after = { before with backend := backend } := by
  unfold callBackend at ran
  cases called : call before.backend with
  | ok value backend =>
    rw [called] at ran
    cases ran
  | error error backend =>
    rw [called] at ran
    injection ran with _ isAfter
    exact ⟨error, backend, rfl, isAfter.symm⟩

theorem callBackend_note_ok {α : Type} {writes : Bool} {call : BackendM B α}
    {before after : FactumStore F (Watched B)} {value : α}
    (ran : callBackend (Watched.note writes call) before = .ok value after) :
    ∃ backend, call before.backend.backend = .ok value backend ∧
      after = before.noted backend writes false := by
  obtain ⟨watched, noted, rfl⟩ := callBackend_ok ran
  unfold Watched.note at noted
  cases called : call before.backend.backend with
  | ok value' backend =>
    rw [called] at noted
    injection noted with isValue isWatched
    rw [isValue, ← isWatched]
    exact ⟨backend, rfl, rfl⟩
  | error error backend =>
    rw [called] at noted
    cases noted

theorem callBackend_note_error {α : Type} {writes : Bool} {call : BackendM B α}
    {before after : FactumStore F (Watched B)} {stop : Stop StoreError}
    (ran : callBackend (Watched.note writes call) before = .error stop after) :
    ∃ error backend, call before.backend.backend = .error error backend ∧
      after = before.noted backend writes true := by
  obtain ⟨error, watched, noted, rfl⟩ := callBackend_error ran
  unfold Watched.note at noted
  cases called : call before.backend.backend with
  | ok value backend =>
    rw [called] at noted
    cases noted
  | error error' backend =>
    rw [called] at noted
    injection noted with _ isWatched
    rw [← isWatched]
    exact ⟨error', backend, rfl, rfl⟩

/-! ### What a method does up to its first failure -/

section Methods

variable [StorageBackend F B]

open StorageBackend

/-- How an insertion goes: it is turned away, or its batch is written or not. -/
inductive InsertStep (node : Node F) (store : FactumStore F B) :
    EStateM.Result (Stop StoreError) (FactumStore F B) Unit → Prop
  | rejected (reason : String) : InsertStep node store (.error (.fail (.invalidNode reason)) store)
  | unread {stop after} (read : callBackend (getNode node.id) store = .error stop after) :
      InsertStep node store (.error stop after)
  | stored {found after} (read : callBackend (getNode node.id) store = .ok (some found) after) :
      InsertStep node store (.error (.fail (.alreadyExists node.id.asStr)) after)
  | unwritten {found stop after} (read : callBackend (getNode node.id) store = .ok none found)
      (write : callBackend (batchWrite (buildInsertOps found.registry node))
        (found.log (.insert node)) = .error stop after) :
      InsertStep node store (.error stop after)
  | written {found after} (read : callBackend (getNode node.id) store = .ok none found)
      (write : callBackend (batchWrite (buildInsertOps found.registry node))
        (found.log (.insert node)) = .ok () after) :
      InsertStep node store (.ok () ((after.updateIndices node).notifyInsert node))

theorem insertStep (node : Node F) (store : FactumStore F B) :
    InsertStep node store (insert node store) := by
  unfold insert
  rw [get_bind_run]
  cases store.rejection node with
  | some reason => exact .rejected reason
  | none =>
    cases read : callBackend (getNode node.id) store with
    | error stop after =>
      simp only [bind_error read]
      exact .unread read
    | ok stored found =>
      simp only [bind_ok read]
      cases stored with
      | some _ => exact .stored read
      | none =>
        simp only [Option.isSome_none, Bool.false_eq_true, if_false, get_bind_run, modify_bind_run]
        cases write : callBackend (batchWrite (buildInsertOps found.registry node))
            (found.log (.insert node)) with
        | error stop after =>
          rw [bind_error write]
          exact .unwritten read write
        | ok _ after =>
          rw [bind_ok write]
          exact .written read write

/-- How a level of a cascade goes, up to the loop over the dependents. -/
inductive CascadeStep (maxNodes fuel : Nat) (id : NodeId) (level : Nat) (result : RetractResult)
    (store : FactumStore F B) :
    EStateM.Result (Stop StoreError) (FactumStore F B) RetractResult → Prop
  | full (noRoom : maxNodes ≤ result.retracted.length) :
      CascadeStep maxNodes fuel id level result store (.ok { result with truncated := true } store)
  | unread {stop after} (read : callBackend (getNode id) store = .error stop after) :
      CascadeStep maxNodes fuel id level result store (.error stop after)
  | missing {after} (read : callBackend (getNode id) store = .ok none after) :
      CascadeStep maxNodes fuel id level result store (.error (.fail (.notFound id.asStr)) after)
  | already {node after} (read : callBackend (getNode id) store = .ok (some node) after) :
      CascadeStep maxNodes fuel id level result store
        (.ok { result with depthReached := max result.depthReached level } after)
  | unwritten {node found stop after}
      (read : callBackend (getNode id) store = .ok (some node) found)
      (write : callBackend (putNode node.retract) found = .error stop after) :
      CascadeStep maxNodes fuel id level result store (.error stop after)
  | written {node found after} (room : result.retracted.length < maxNodes)
      (read : callBackend (getNode id) store = .ok (some node) found)
      (write : callBackend (putNode node.retract) found = .ok () after) :
      CascadeStep maxNodes fuel id level result store
        (retractDependents maxNodes (retractRecursive maxNodes fuel) level
          (Hash.listOf after.depsRev id)
          { result with
            retracted := result.retracted ++ [id]
            depthReached := max result.depthReached level }
          (after.log (.retract id)))

theorem cascadeStep (maxNodes fuel : Nat) (id : NodeId) (level : Nat) (result : RetractResult)
    (store : FactumStore F B) :
    CascadeStep maxNodes fuel id level result store
      (retractRecursive maxNodes (fuel + 1) id level result store) := by
  unfold retractRecursive
  rw [ite_run]
  split_ifs with noRoom
  · exact .full noRoom
  · cases read : callBackend (getNode id) store with
    | error stop after =>
      rw [bind_error read]
      exact .unread read
    | ok stored found =>
      rw [bind_ok read]
      cases stored with
      | none => exact .missing read
      | some node =>
        dsimp only
        rw [ite_run]
        split_ifs with retracted
        · exact .already read
        · cases write : callBackend (putNode node.retract) found with
          | error stop after =>
            rw [bind_error write]
            exact .unwritten read write
          | ok _ after =>
            rw [bind_ok write, modify_bind_run, get_bind_run]
            exact .written (Nat.lt_of_not_le noRoom) read write

end Methods

/-! ### What a failed call leaves -/

/-- The nodes, the indices in memory, the log and the queues are as before. -/
structure Untouched (held : B → NodeId → Option (Node F)) (before after : FactumStore F B) :
    Prop where
  nodes : held after.backend = held before.backend
  depsRev : after.depsRev = before.depsRev
  byValidity : after.byValidity = before.byValidity
  wal : after.wal = before.wal
  subscriptions : after.subscriptions = before.subscriptions

theorem Untouched.refl (held : B → NodeId → Option (Node F)) (store : FactumStore F B) :
    Untouched held store store := ⟨rfl, rfl, rfl, rfl, rfl⟩

theorem Untouched.trans {held : B → NodeId → Option (Node F)} {first second third : FactumStore F B}
    (one : Untouched held first second) (two : Untouched held second third) :
    Untouched held first third where
  nodes := two.nodes.trans one.nodes
  depsRev := two.depsRev.trans one.depsRev
  byValidity := two.byValidity.trans one.byValidity
  wal := two.wal.trans one.wal
  subscriptions := two.subscriptions.trans one.subscriptions

section Calls

variable [StorageBackend F B]

/-- A call that leaves everything as it was if it is an error. -/
def ErrsUntouched (held : B → NodeId → Option (Node F)) (store : FactumStore F B)
    (call : Call F) : Prop :=
  ∀ stop, store.outcome call = .error stop → Untouched held store (store.after call)

/-- How the calls went that a call makes on its backend. -/
def backendEvents (store : FactumStore F B) (call : Call F) : List BackendEvent :=
  (store.watched.after call).backend.events

/-- What is done with the value has no part in an error. -/
theorem errsUntouched_iff {α : Type} (held : B → NodeId → Option (Node F)) (store : FactumStore F B)
    {call : Call F} {method : StoreM F B α} {f : α → Answer}
    (performs : perform call = method >>= fun value => pure (f value)) :
    store.ErrsUntouched held call ↔
      ∀ stop after, method store = .error stop after → Untouched held store after := by
  rw [ErrsUntouched, outcome, FactumStore.after, performs, final_bind_pure, answer_bind_pure]
  cases ran : method store with
  | ok value after =>
    rw [answer_ok ran]
    exact ⟨fun _ _ _ => nofun, fun _ _ => nofun⟩
  | error stop after =>
    rw [answer_error ran, final_error ran]
    constructor
    · rintro untouched _ _ ⟨rfl, rfl⟩
      exact untouched stop rfl
    · exact fun untouched _ _ => untouched stop after rfl

end Calls

end FactumStore

/-- The failures of a call come before its effects: an insertion is logged before its batch is
written, and a cascade is not undone once it has written a node. -/
def Call.FailsInTime (events : List BackendEvent) : Call F → Prop
  | .insert _ => ⟨true, true⟩ ∉ events
  | .retractWithLimit _ _ =>
    events.Pairwise fun earlier later => earlier = ⟨true, false⟩ → later.failed = false
  | _ => True

instance (events : List BackendEvent) : ∀ call : Call F, Decidable (call.FailsInTime events)
  | .insert _ => inferInstanceAs (Decidable (_ ∉ events))
  | .retractWithLimit _ _ => inferInstanceAs (Decidable (events.Pairwise _))
  | .insertBatch _ => .isTrue trivial
  | .subscribe _ => .isTrue trivial
  | .setVerifiers _ => .isTrue trivial

namespace FactumStore

/-- The nodes that a watched backend holds. -/
abbrev heldBelow (held : B → NodeId → Option (Node F)) : Watched B → NodeId → Option (Node F) :=
  fun watched => held watched.backend

/-- A watched store that only its backend and its events tell from another. -/
theorem untouched_noted {held : B → NodeId → Option (Node F)}
    {store : FactumStore F (Watched B)} {backend : B} {writes failed : Bool}
    (same : held backend = held store.backend.backend) :
    Untouched (heldBelow held) store (store.noted backend writes failed) :=
  ⟨same, rfl, rfl, rfl, rfl⟩

theorem verifyAll_untouched (held : B → NodeId → Option (Node F)) (nodes : List (Node F)) :
    Leaves (Untouched held) (verifyAll nodes : StoreM F B Unit) := by
  induction nodes with
  | nil => exact .pure (Untouched.refl held) ()
  | cons node rest inductionHypothesis =>
    refine .get_bind fun store => ?_
    cases store.rejection node with
    | some reason => exact .throw (Untouched.refl held) _
    | none => exact inductionHypothesis

theorem admitAll_succeeds (nodes : List (Node F)) : ∀ store : FactumStore F B,
    ∃ after, admitAll nodes store = .ok () after := by
  induction nodes with
  | nil => exact fun store => ⟨store, rfl⟩
  | cons node rest inductionHypothesis => exact fun store => inductionHypothesis _

section Calls

variable [StorageBackend F B] {held : B → NodeId → Option (Node F)}

open StorageBackend

/-! ### Batches -/

/-- Reading a node leaves everything as it was. -/
theorem getNode_untouched (faithful : Faithful held) (id : NodeId) :
    Leaves (Untouched held) (callBackend (getNode id) : StoreM F B (Option (Node F))) := by
  intro store
  cases read : callBackend (getNode id) store with
  | ok found after =>
    rw [final_ok read]
    obtain ⟨backend, called, rfl⟩ := callBackend_ok read
    exact ⟨(faithful.getNode_ok id _ _ _ called).2, rfl, rfl, rfl, rfl⟩
  | error stop after =>
    rw [final_error read]
    obtain ⟨error, backend, called, rfl⟩ := callBackend_error read
    exact ⟨faithful.getNode_error id _ _ _ called, rfl, rfl, rfl, rfl⟩

theorem checkDuplicates_untouched (faithful : Faithful held) (nodes : List (Node F)) :
    ∀ seen : List NodeId,
      Leaves (Untouched held) (checkDuplicates nodes seen : StoreM F B Unit) := by
  induction nodes with
  | nil => exact fun _ => .pure (Untouched.refl held) ()
  | cons node rest inductionHypothesis =>
    intro seen
    refine .bind .trans (getNode_untouched faithful node.id) fun found => ?_
    exact .ite (.throw (Untouched.refl held) _) (inductionHypothesis _)

theorem batchWrite_errs (faithful : Faithful held) {ops : List (WriteOp F)}
    (insertions : ∀ op ∈ ops, op.isInsertion = true) :
    Errs (Untouched held) (callBackend (batchWrite ops) : StoreM F B Unit) := by
  intro before stop after failed
  obtain ⟨error, backend, called, rfl⟩ := callBackend_error failed
  exact ⟨faithful.batchWrite_error ops _ _ _ insertions called, rfl, rfl, rfl, rfl⟩

/-- A batch that is an error has changed nothing. -/
theorem insertBatch_errsUntouched (faithful : Faithful held) (store : FactumStore F B)
    (nodes : List (Node F)) : store.ErrsUntouched held (.insertBatch nodes) := by
  refine (errsUntouched_iff held store rfl).mpr fun stop after => ?_
  have errs : Errs (Untouched held) (insertBatch nodes : StoreM F B Unit) := by
    refine Leaves.bind_errs .trans (verifyAll_untouched held nodes) fun _ => ?_
    refine Leaves.bind_errs .trans (checkDuplicates_untouched faithful nodes []) fun _ => ?_
    refine Errs.get_bind fun now => ?_
    refine Errs.bind (batchWrite_errs faithful fun op member => ?_) fun _ between stop' after' => ?_
    · obtain ⟨node, _, isOp⟩ := List.mem_flatMap.mp member
      exact isInsertion_of_mem_buildInsertOps isOp
    · obtain ⟨admitted, ran⟩ := admitAll_succeeds nodes between
      rw [bind_ok ran]
      exact nofun
  exact errs store stop after

end Calls

/-! ### Insertions and cascades, watched -/

section Watched

variable [StorageBackend F B] {held : B → NodeId → Option (Node F)}

open StorageBackend

theorem watched_getNode_ok (faithful : Faithful held) {id : NodeId}
    {before after : FactumStore F (Watched B)} {found : Option (Node F)}
    (read : callBackend (getNode id) before = .ok found after) :
    ∃ backend, held backend = held before.backend.backend ∧
      found = held before.backend.backend id ∧ after = before.noted backend false false := by
  obtain ⟨backend, called, isAfter⟩ := callBackend_note_ok read
  have ⟨isFound, same⟩ := faithful.getNode_ok id _ _ _ called
  exact ⟨backend, same, isFound, isAfter⟩

theorem watched_getNode_error (faithful : Faithful held) {id : NodeId}
    {before after : FactumStore F (Watched B)} {stop : Stop StoreError}
    (read : (callBackend (getNode id) : StoreM F (Watched B) (Option (Node F))) before =
      .error stop after) :
    ∃ backend, held backend = held before.backend.backend ∧
      after = before.noted backend false true := by
  obtain ⟨error, backend, called, isAfter⟩ := callBackend_note_error read
  exact ⟨backend, faithful.getNode_error id _ _ _ called, isAfter⟩

/-- An insertion that is an error has changed nothing, unless its batch failed. -/
theorem insert_errsUntouched_iff (faithful : Faithful held) {store : FactumStore F (Watched B)}
    (fresh : store.backend.events = []) (node : Node F) :
    (∀ stop after, insert node store = .error stop after →
        Untouched (heldBelow held) store after) ↔
      ⟨true, true⟩ ∉ (final (insert node) store).backend.events := by
  have step := insertStep node store
  generalize ran : insert node store = result at step
  cases step with
  | rejected reason =>
    rw [final_error ran, fresh]
    refine ⟨fun _ => List.not_mem_nil, ?_⟩
    rintro _ _ _ ⟨⟩
    exact .refl _ _
  | unread read =>
    obtain ⟨backend, same, rfl⟩ := watched_getNode_error faithful read
    rw [final_error ran]
    refine ⟨fun _ => ?_, ?_⟩
    · simp [noted, fresh]
    · rintro _ _ _ ⟨⟩
      exact untouched_noted same
  | stored read =>
    obtain ⟨backend, same, _, rfl⟩ := watched_getNode_ok faithful read
    rw [final_error ran]
    refine ⟨fun _ => ?_, ?_⟩
    · simp [noted, fresh]
    · rintro _ _ _ ⟨⟩
      exact untouched_noted same
  | unwritten read write =>
    obtain ⟨backend, same, _, rfl⟩ := watched_getNode_ok faithful read
    obtain ⟨error, backend', called, rfl⟩ := callBackend_note_error write
    rw [final_error ran]
    constructor
    · intro untouched
      -- the entry of the log stays
      have wal := (untouched _ _ rfl).wal
      simp [noted, log] at wal
    · intro inTime
      exact absurd (by simp [noted, log]) inTime
  | written read write =>
    obtain ⟨backend, same, _, rfl⟩ := watched_getNode_ok faithful read
    obtain ⟨backend', called, rfl⟩ := callBackend_note_ok write
    rw [final_ok ran]
    constructor
    · simp [noted, log, updateIndices, notifyInsert, fresh]
    · rintro _ _ _ ⟨⟩

end Watched

/-- A watched store goes on from another: its log and its events are longer, and among the new
events there is a failure or there is none. -/
structure Continues (before after : FactumStore F (Watched B)) (failed : Bool) : Prop where
  wal : before.wal <+: after.wal
  events : ∃ events, after.backend.events = before.backend.events ++ events ∧
    events.any BackendEvent.failed = failed

theorem Continues.refl (store : FactumStore F (Watched B)) : Continues store store false :=
  ⟨List.prefix_refl _, [], (List.append_nil _).symm, rfl⟩

theorem Continues.trans {first second third : FactumStore F (Watched B)} {failed : Bool}
    (one : Continues first second false) (two : Continues second third failed) :
    Continues first third failed where
  wal := one.wal.trans two.wal
  events := by
    obtain ⟨here, isHere, noFailure⟩ := one.events
    obtain ⟨later, isLater, isFailed⟩ := two.events
    refine ⟨here ++ later, by rw [isLater, isHere, List.append_assoc], ?_⟩
    rw [List.any_append, noFailure, Bool.false_or, isFailed]

theorem continues_noted (store : FactumStore F (Watched B)) (backend : B)
    (writes failed : Bool) : Continues store (store.noted backend writes failed) failed :=
  ⟨List.prefix_refl _, [⟨writes, failed⟩], rfl, Bool.or_false failed⟩

theorem continues_log (store : FactumStore F (Watched B)) (entry : WalEntry F) :
    Continues store (store.log entry) false :=
  ⟨List.prefix_append _ _, [], (List.append_nil _).symm, rfl⟩

/-- A cascade that is an error tells of a failed call on the backend, and one that is not
tells of none and has retracted no fewer nodes than before. -/
def Told (before : FactumStore F (Watched B)) (size : Nat) :
    EStateM.Result (Stop StoreError) (FactumStore F (Watched B)) RetractResult → Prop
  | .ok result after => size ≤ result.retracted.length ∧ Continues before after false
  | .error _ after => Continues before after true

theorem Told.after {before between : FactumStore F (Watched B)} {size size' : Nat}
    {result : EStateM.Result (Stop StoreError) (FactumStore F (Watched B)) RetractResult}
    (first : Continues before between false) (grows : size ≤ size')
    (told : Told between size' result) : Told before size result := by
  cases result with
  | ok value after => exact ⟨grows.trans told.1, first.trans told.2⟩
  | error stop after => exact first.trans told

/-- After a write no call may fail. -/
theorem pairwise_written_iff (events : List BackendEvent) :
    (⟨false, false⟩ :: ⟨true, false⟩ :: events).Pairwise
        (fun earlier later : BackendEvent => earlier = ⟨true, false⟩ → later.failed = false) ↔
      events.any BackendEvent.failed = false := by
  simp only [List.any_eq_false, Bool.not_eq_true]
  constructor
  · intro inTime event member
    exact (List.pairwise_cons.mp (List.pairwise_cons.mp inTime).2).1 event member rfl
  · intro noFailure
    refine List.pairwise_of_forall_mem_list fun earlier _ later member _ => ?_
    rcases List.mem_cons.mp member with rfl | member
    · rfl
    · rcases List.mem_cons.mp member with rfl | member
      · rfl
      · exact noFailure later member

section Watched

variable [StorageBackend F B] {held : B → NodeId → Option (Node F)}

open StorageBackend

theorem told_retractDependents (faithful : Faithful held) {maxNodes fuel : Nat}
    {recurse : NodeId → Nat → RetractResult → StoreM F (Watched B) RetractResult}
    (tells : ∀ id level result store, (held store.backend.backend id).isSome = true →
      result.retracted.length < maxNodes → maxNodes < fuel + result.retracted.length →
      Told store result.retracted.length (recurse id level result store)) (level : Nat) :
    ∀ (ids : List NodeId) (result : RetractResult) (store : FactumStore F (Watched B)),
      maxNodes < fuel + result.retracted.length → Told store result.retracted.length
        (retractDependents maxNodes recurse level ids result store) := by
  intro ids
  induction ids with
  | nil => exact fun result store _ => ⟨le_refl _, .refl store⟩
  | cons id rest inductionHypothesis =>
    intro result store enough
    unfold retractDependents
    cases read : callBackend (getNode id) store with
    | error stop after =>
      obtain ⟨backend, _, rfl⟩ := watched_getNode_error faithful read
      rw [bind_error read]
      exact continues_noted store backend false true
    | ok found after =>
      obtain ⟨backend, same, isFound, rfl⟩ := watched_getNode_ok faithful read
      have first := continues_noted store backend false false
      have goOn := Told.after first (le_refl _)
        (inductionHypothesis result (store.noted backend false false) enough)
      rw [bind_ok read]
      cases found with
      | none => exact goOn
      | some node =>
        dsimp only
        rw [ite_run]
        split_ifs with dependent noRoom
        · exact ⟨le_refl _, first⟩
        · have isHeld : (held backend id).isSome = true := by
            rw [same, ← isFound]
            rfl
          have told := tells id (level + 1) result (store.noted backend false false) isHeld
            (Nat.lt_of_not_le noRoom) enough
          cases ran : recurse id (level + 1) result (store.noted backend false false) with
          | error stop after =>
            rw [ran] at told
            rw [bind_error ran]
            exact first.trans told
          | ok result' after =>
            rw [ran] at told
            obtain ⟨grows, continues⟩ := told
            rw [bind_ok ran]
            exact Told.after (first.trans continues) grows
              (inductionHypothesis result' after (by omega))
        · exact goOn

theorem told_retractRecursive (faithful : Faithful held) (maxNodes : Nat) :
    ∀ (fuel : Nat) (id : NodeId) (level : Nat) (result : RetractResult)
      (store : FactumStore F (Watched B)), (held store.backend.backend id).isSome = true →
      result.retracted.length < maxNodes → maxNodes < fuel + result.retracted.length →
      Told store result.retracted.length
        (retractRecursive maxNodes fuel id level result store) := by
  intro fuel
  induction fuel with
  | zero => intro id level result store _ room enough; omega
  | succ fuel inductionHypothesis =>
    intro id level result store isHeld room enough
    have step := cascadeStep maxNodes fuel id level result store
    generalize retractRecursive maxNodes (fuel + 1) id level result store = ran at step
    cases step with
    | full noRoom => exact ⟨le_refl _, .refl store⟩
    | unread read =>
      obtain ⟨backend, _, rfl⟩ := watched_getNode_error faithful read
      exact continues_noted store backend false true
    | missing read =>
      obtain ⟨backend, _, isFound, _⟩ := watched_getNode_ok faithful read
      rw [← isFound] at isHeld
      cases isHeld
    | already read =>
      obtain ⟨backend, _, _, rfl⟩ := watched_getNode_ok faithful read
      exact ⟨le_refl _, continues_noted store backend false false⟩
    | unwritten read write =>
      obtain ⟨backend, _, _, rfl⟩ := watched_getNode_ok faithful read
      obtain ⟨_, backend', _, rfl⟩ := callBackend_note_error write
      exact (continues_noted store backend false false).trans
        (continues_noted _ backend' true true)
    | written _ read write =>
      obtain ⟨backend, _, _, rfl⟩ := watched_getNode_ok faithful read
      obtain ⟨backend', _, rfl⟩ := callBackend_note_ok write
      have begun := ((continues_noted store backend false false).trans
        (continues_noted _ backend' true false)).trans (continues_log _ (.retract id))
      have grown : (result.retracted ++ [id]).length = result.retracted.length + 1 :=
        List.length_append
      refine Told.after begun (Nat.le_of_lt (Nat.lt_of_lt_of_eq (Nat.lt_succ_self _) grown.symm))
        (told_retractDependents faithful inductionHypothesis level _ _ _ ?_)
      rw [grown]
      omega

/-- A cascade that is an error has changed nothing, unless a call on the backend failed after
the root was written. -/
theorem retractRecursive_errsUntouched_iff (faithful : Faithful held)
    {store : FactumStore F (Watched B)} (fresh : store.backend.events = []) (id : NodeId)
    (maxNodes : Nat) :
    (∀ stop after, retractRecursive maxNodes (maxNodes + 1) id 0 ⟨[], false, 0⟩ store =
        .error stop after → Untouched (heldBelow held) store after) ↔
      (final (retractRecursive maxNodes (maxNodes + 1) id 0 ⟨[], false, 0⟩)
          store).backend.events.Pairwise
        fun earlier later => earlier = ⟨true, false⟩ → later.failed = false := by
  have step := cascadeStep maxNodes maxNodes id 0 ⟨[], false, 0⟩ store
  generalize ran : retractRecursive maxNodes (maxNodes + 1) id 0 ⟨[], false, 0⟩ store = result
    at step
  cases step with
  | full noRoom =>
    rw [final_ok ran, fresh]
    exact ⟨fun _ => .nil, fun _ _ _ => nofun⟩
  | unread read =>
    obtain ⟨backend, same, rfl⟩ := watched_getNode_error faithful read
    rw [final_error ran]
    refine ⟨fun _ => ?_, ?_⟩
    · simp [noted, fresh]
    · rintro _ _ _ ⟨⟩
      exact untouched_noted same
  | missing read =>
    obtain ⟨backend, same, _, rfl⟩ := watched_getNode_ok faithful read
    rw [final_error ran]
    refine ⟨fun _ => ?_, ?_⟩
    · simp [noted, fresh]
    · rintro _ _ _ ⟨⟩
      exact untouched_noted same
  | already read =>
    obtain ⟨backend, same, _, rfl⟩ := watched_getNode_ok faithful read
    rw [final_ok ran]
    refine ⟨fun _ => ?_, fun _ _ _ => nofun⟩
    simp [noted, fresh]
  | unwritten read write =>
    obtain ⟨backend, same, _, rfl⟩ := watched_getNode_ok faithful read
    obtain ⟨_, backend', called, rfl⟩ := callBackend_note_error write
    rw [final_error ran]
    refine ⟨fun _ => ?_, ?_⟩
    · simp [noted, fresh]
    · rintro _ _ _ ⟨⟩
      exact (untouched_noted same).trans
        (untouched_noted (faithful.putNode_error _ _ _ _ called))
  | written _ read write =>
    obtain ⟨backend, same, _, rfl⟩ := watched_getNode_ok faithful read
    obtain ⟨backend', called, rfl⟩ := callBackend_note_ok write
    have told : Told
        (((store.noted backend false false).noted backend' true false).log (.retract id)) 1
        (retractRecursive maxNodes (maxNodes + 1) id 0 ⟨[], false, 0⟩ store) := by
      rw [ran]
      exact told_retractDependents faithful (told_retractRecursive faithful maxNodes maxNodes) 0 _
        _ _ (Nat.lt_succ_self _)
    rw [← ran]
    cases whole : retractRecursive maxNodes (maxNodes + 1) id 0 ⟨[], false, 0⟩ store with
    | ok value after =>
      rw [whole] at told
      obtain ⟨events, isEvents, noFailure⟩ := told.2.events
      rw [final_ok whole, isEvents]
      refine ⟨fun _ => ?_, fun _ _ _ => nofun⟩
      simp only [noted, log, fresh, List.nil_append, List.cons_append]
      exact (pairwise_written_iff events).mpr noFailure
    | error stop after =>
      rw [whole] at told
      obtain ⟨events, isEvents, isFailure⟩ := told.events
      rw [final_error whole, isEvents]
      constructor
      · intro untouched
        -- the entry of the root stays in the log
        have longer := told.wal.length_le
        rw [(untouched stop after rfl).wal] at longer
        simp [noted, log] at longer
      · intro inTime
        simp only [noted, log, fresh, List.nil_append, List.cons_append] at inTime
        rw [(pairwise_written_iff events).mp inTime] at isFailure
        cases isFailure

/-- A retraction is an error when its cascade is, and leaves what the cascade left. -/
theorem retractWithLimit_error_iff (id : NodeId) (maxNodes : Nat) (store : FactumStore F B)
    (stop : Stop StoreError) (after : FactumStore F B) :
    retractWithLimit id maxNodes store = .error stop after ↔
      retractRecursive maxNodes (maxNodes + 1) id 0 ⟨[], false, 0⟩ store = .error stop after := by
  unfold retractWithLimit
  cases ran : retractRecursive maxNodes (maxNodes + 1) id 0 ⟨[], false, 0⟩ store with
  | ok result between =>
    rw [bind_ok ran]
    exact ⟨nofun, nofun⟩
  | error stop' between =>
    rw [bind_error ran]

theorem final_retractWithLimit_backend (id : NodeId) (maxNodes : Nat) (store : FactumStore F B) :
    (final (retractWithLimit id maxNodes) store).backend =
      (final (retractRecursive maxNodes (maxNodes + 1) id 0 ⟨[], false, 0⟩) store).backend := by
  unfold retractWithLimit
  cases ran : retractRecursive maxNodes (maxNodes + 1) id 0 ⟨[], false, 0⟩ store with
  | ok result between =>
    rw [final_ok ran, final, bind_ok ran]
    rfl
  | error stop between =>
    rw [final_error ran, final_error (bind_error ran)]

/-- A watched call is an error that changes nothing when the call that is not watched is. -/
theorem errsUntouched_watched_iff (held : B → NodeId → Option (Node F)) (store : FactumStore F B)
    (call : Call F) :
    store.watched.ErrsUntouched (heldBelow held) call ↔ store.ErrsUntouched held call := by
  have step : Agree (InStep Watched.Watches) (perform call : StoreM F B Answer) (perform call) :=
    agree_perform Watched.callsAgree fun _ _ => trivial
  have same : store.outcome call = store.watched.outcome call := step.answer (inStep_watched store)
  have states : InStep Watched.Watches (store.after call) (store.watched.after call) :=
    step.final (inStep_watched store)
  rw [ErrsUntouched, ErrsUntouched, same]
  refine forall_congr' fun stop => imp_congr_right fun _ => ?_
  constructor
  · intro untouched
    exact ⟨by rw [← states.backend]; exact untouched.nodes,
      states.depsRev.symm.trans untouched.depsRev,
      states.byValidity.symm.trans untouched.byValidity,
      states.wal.symm.trans untouched.wal,
      states.subscriptions.symm.trans untouched.subscriptions⟩
  · intro untouched
    refine ⟨?_, states.depsRev.trans untouched.depsRev,
      states.byValidity.trans untouched.byValidity, states.wal.trans untouched.wal,
      states.subscriptions.trans untouched.subscriptions⟩
    show held (store.watched.after call).backend.backend = _
    rw [states.backend]
    exact untouched.nodes

/-- A call that is an error has changed nothing when and only when its failures came before
its effects. -/
theorem errsUntouched_iff_failsInTime (faithful : Faithful held) (store : FactumStore F B)
    (call : Call F) :
    store.ErrsUntouched held call ↔ call.FailsInTime (store.backendEvents call) := by
  cases call with
  | insert node =>
    rw [← errsUntouched_watched_iff, errsUntouched_iff _ _ rfl,
      insert_errsUntouched_iff faithful rfl, Call.FailsInTime, backendEvents, FactumStore.after,
      perform, final_bind_pure]
  | insertBatch nodes => exact ⟨fun _ => trivial, fun _ => insertBatch_errsUntouched faithful _ _⟩
  | retractWithLimit id maxNodes =>
    rw [← errsUntouched_watched_iff, errsUntouched_iff _ _ rfl, Call.FailsInTime, backendEvents,
      FactumStore.after, perform, final_bind_pure, final_retractWithLimit_backend,
      ← retractRecursive_errsUntouched_iff faithful rfl]
    simp only [retractWithLimit_error_iff]
  | subscribe pattern => exact ⟨fun _ => trivial, fun _ _ => nofun⟩
  | setVerifiers verifiers => exact ⟨fun _ => trivial, fun _ _ => nofun⟩

/-- Throughout a run the calls that are errors change nothing when and only when the failures
of every call come before its effects. -/
theorem run_errsUntouched_iff (faithful : Faithful held) (store : FactumStore F B)
    (calls : List (Call F)) :
    (∀ early call, early ++ [call] <+: calls → (store.run early).ErrsUntouched held call) ↔
      ∀ early call, early ++ [call] <+: calls →
        call.FailsInTime ((store.run early).backendEvents call) := by
  exact forall_congr' fun early => forall_congr' fun call => imp_congr_right fun _ =>
    errsUntouched_iff_failsInTime faithful _ call

end Watched

end FactumStore

/-! ### A backend that fails on schedule -/

/-- An in-memory backend whose next calls fail or not as a schedule says. -/
structure Flaky (F : Type) where
  backend : InMemoryBackend F
  schedule : List Bool

namespace Flaky

/-- Fail if the schedule says so, and otherwise make the call. -/
def attempt {α : Type} (call : BackendM (InMemoryBackend F) α) : BackendM (Flaky F) α :=
  fun flaky =>
    if flaky.schedule.head? = some true then
      .error (.io "injected") ⟨flaky.backend, flaky.schedule.tail⟩
    else
      match call flaky.backend with
      | .ok value after => .ok value ⟨after, flaky.schedule.tail⟩
      | .error error after => .error error ⟨after, flaky.schedule.tail⟩

instance : StorageBackend F (Flaky F) where
  getNode id := attempt (StorageBackend.getNode id)
  putNode node := attempt (StorageBackend.putNode node)
  deleteNode id := attempt (StorageBackend.deleteNode id)
  scanIndex cf key := attempt (StorageBackend.scanIndex cf key)
  putIndex cf key id := attempt (StorageBackend.putIndex cf key id)
  deleteIndex cf key id := attempt (StorageBackend.deleteIndex cf key id)
  batchWrite ops := attempt (StorageBackend.batchWrite ops)
  len := attempt StorageBackend.len
  iterNodes := attempt StorageBackend.iterNodes

theorem attempt_ok {α : Type} {call : BackendM (InMemoryBackend F) α} {before after : Flaky F}
    {value : α} (ran : attempt call before = .ok value after) :
    call before.backend = .ok value after.backend := by
  unfold attempt at ran
  split_ifs at ran
  cases called : call before.backend with
  | ok value' backend =>
    rw [called] at ran
    injection ran with isValue isAfter
    rw [isValue, ← isAfter]
  | error error backend =>
    rw [called] at ran
    cases ran

theorem attempt_error {α : Type} {call : BackendM (InMemoryBackend F) α} {before after : Flaky F}
    {error : StorageError} (ran : attempt call before = .error error after) :
    after.backend = before.backend ∨ call before.backend = .error error after.backend := by
  unfold attempt at ran
  split_ifs at ran
  · injection ran with _ isAfter
    exact .inl (by rw [← isAfter])
  · cases called : call before.backend with
    | ok value backend =>
      rw [called] at ran
      cases ran
    | error error' backend =>
      rw [called] at ran
      injection ran with isError isAfter
      exact .inr (by rw [isError, ← isAfter])

/-- The nodes that the backend holds. -/
def held (flaky : Flaky F) (id : NodeId) : Option (Node F) := flaky.backend.nodes.get? id

theorem faithful : Faithful (held (F := F)) where
  getNode_ok id b found after ran :=
    InMemoryBackend.faithful.getNode_ok id _ found _ (attempt_ok ran)
  getNode_error id b error after ran := by
    rcases attempt_error ran with same | failed
    · exact congrArg (fun backend : InMemoryBackend F => backend.nodes.get?) same
    · exact InMemoryBackend.faithful.getNode_error id _ _ _ failed
  putNode_ok node b after ran := InMemoryBackend.faithful.putNode_ok node _ _ (attempt_ok ran)
  putNode_error node b error after ran := by
    rcases attempt_error ran with same | failed
    · exact congrArg (fun backend : InMemoryBackend F => backend.nodes.get?) same
    · exact InMemoryBackend.faithful.putNode_error node _ _ _ failed
  batchWrite_ok ops b after insertions ran :=
    InMemoryBackend.faithful.batchWrite_ok ops _ _ insertions (attempt_ok ran)
  batchWrite_error ops b error after insertions ran := by
    rcases attempt_error ran with same | failed
    · exact congrArg (fun backend : InMemoryBackend F => backend.nodes.get?) same
    · exact InMemoryBackend.faithful.batchWrite_error ops _ _ _ insertions failed
  iterNodes_ok b nodes after keyed ran :=
    InMemoryBackend.faithful.iterNodes_ok _ nodes _ keyed (attempt_ok ran)

end Flaky

namespace FactumStore

/-- A store that is opened over an empty backend with a schedule. -/
def flakyStore (schedule : List Bool) : FactumStore Rat (Flaky Rat) :=
  withBackend ⟨.new (.asStored _) (fun _ => .asStored _), schedule⟩ .new

/-- An insertion whose batch fails stays in the log, and a cascade that fails at a dependent
leaves its root retracted. -/
theorem failures_leave_effects :
    Faithful (Flaky.held (F := Rat)) ∧
    ¬ (flakyStore [false, false, true]).ErrsUntouched Flaky.held (.insert premise) ∧
    ¬ ((flakyStore [false, false, false, false, false, false, false, true]).run
      [.insert premise, .insert conclusion]).ErrsUntouched Flaky.held
        (.retractWithLimit ⟨"n1"⟩ 10) := by
  refine ⟨Flaky.faithful, ?_, ?_⟩
  · rw [errsUntouched_iff_failsInTime Flaky.faithful]
    decide
  · rw [errsUntouched_iff_failsInTime Flaky.faithful]
    decide

/-- An insertion that cannot read the node changes nothing. -/
theorem run_errsUntouched_iff_unread :
    (flakyStore [false, true]).ErrsUntouched Flaky.held (.insert premise) := by
  refine (run_errsUntouched_iff Flaky.faithful (flakyStore [false, true]) [.insert premise]).mpr
    (fun early call isEarly => ?_) [] _ (List.prefix_refl _)
  cases early with
  | nil =>
    obtain ⟨rfl, _⟩ := List.cons_prefix_cons.mp isEarly
    decide
  | cons first rest =>
    have short := isEarly.length_le
    simp at short

end FactumStore

end Factum
