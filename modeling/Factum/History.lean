/-
This file is about the history that a store keeps.

A batch is the sequence of its insertions and a checkpoint, so it may be read one
node at a time. The log is written by the same calls as the nodes, and replaying it
gives the nodes back. No call takes a node away or changes one except by retracting
it, so what was stored once stays there for the audit.
-/

import Factum.Retraction

namespace Factum

open Stateful

variable {F : Type}

namespace FactumStore

/-! ### One node at a time -/

/-- Taking some nodes is taking the first and then the others. -/
theorem admitted_cons (store : MemStore F) (node : Node F) (rest : List (Node F)) :
    store.admitted (node :: rest) = (store.admitted [node]).admitted rest := by
  have registry := registry_admitted store [node]
  rw [admitted, admitted, registry, foldl_takeNode, foldl_takeNode, admitted, foldl_takeNode]
  simp only [written, List.flatMap_cons, List.flatMap_nil, List.append_nil, List.foldl_append,
    List.foldl_cons, List.foldl_nil, List.map_cons, List.map_nil, List.append_assoc,
    List.singleton_append]

theorem rejection_admitted (store : MemStore F) (nodes : List (Node F)) (node : Node F) :
    (store.admitted nodes).rejection node = store.rejection node := by
  rw [admitted, foldl_takeNode]
  rfl

/-- A store accepts some nodes when it accepts the first and then the others. -/
theorem accepts_cons (store : MemStore F) (node : Node F) (rest : List (Node F)) :
    store.Accepts (node :: rest) ↔
      store.Accepts [node] ∧ (store.admitted [node]).Accepts rest := by
  have one : ([node].map Node.id).Nodup := List.nodup_singleton _
  constructor
  · rintro ⟨verified, fresh, distinct⟩
    rw [List.map_cons, List.nodup_cons] at distinct
    refine ⟨⟨fun other member => ?_, fun other member => ?_, one⟩,
      ⟨fun other member => ?_, fun other member => ?_, distinct.2⟩⟩
    · exact verified other (List.mem_cons.mpr (.inl (List.mem_singleton.mp member)))
    · exact fresh other (List.mem_cons.mpr (.inl (List.mem_singleton.mp member)))
    · rw [rejection_admitted]
      exact verified other (List.mem_cons_of_mem _ member)
    · have different : node.id ≠ other.id := fun same =>
        distinct.1 (List.mem_map.mpr ⟨other, member, same.symm⟩)
      rw [nodeAt_admitted store one, fresh other (List.mem_cons_of_mem _ member),
        List.find?_cons, beq_eq_false_iff_ne.mpr different]
      rfl
  · rintro ⟨first, later⟩
    refine ⟨fun other member => ?_, fun other member => ?_, ?_⟩
    · rcases List.mem_cons.mp member with rfl | isLater
      · exact first.verified other List.mem_cons_self
      · rw [← rejection_admitted store [node]]
        exact later.verified other isLater
    · rcases List.mem_cons.mp member with rfl | isLater
      · exact first.fresh other List.mem_cons_self
      · have fresh := later.fresh other isLater
        rw [nodeAt_admitted store one, Option.or_eq_none_iff] at fresh
        exact fresh.2
    · rw [List.map_cons, List.nodup_cons]
      refine ⟨fun used => ?_, later.distinct⟩
      obtain ⟨other, isLater, sameId⟩ := List.mem_map.mp used
      have fresh := later.fresh other isLater
      rw [nodeAt_admitted store one, sameId, List.find?_cons, beq_self_eq_true] at fresh
      exact absurd fresh (by simp)

/-! ### A batch and its insertions -/

theorem outcome_insert_iff (store : MemStore F) (node : Node F) :
    store.outcome (.insert node) = .ok .done ↔ store.Accepts [node] := by
  have mapped : store.outcome (.insert node) = (answer (insert node) store).map fun _ => .done :=
    answer_bind_pure _ _ _
  have ran := insert_run store node
  rw [accepts_iff, mapped]
  cases rejected : store.rejection node with
  | some reason =>
    rw [rejected] at ran
    rw [answer_error ran]
    simp [rejected, Except.map]
  | none =>
    rw [rejected] at ran
    cases stored : store.nodeAt node.id with
    | some other =>
      rw [stored] at ran
      rw [answer_error ran]
      simp [firstDuplicate, stored, Except.map]
    | none =>
      rw [stored] at ran
      rw [answer_ok ran]
      simp [rejected, firstDuplicate, stored, Except.map]

theorem insertBatch_of_accepts {store : MemStore F} {nodes : List (Node F)}
    (accepts : store.Accepts nodes) :
    insertBatch nodes store = .ok () ((store.admitted nodes).log .checkpoint) := by
  obtain ⟨verified, unique⟩ := (accepts_iff store nodes).mp accepts
  rw [insertBatch_run, verified, unique]

/-- A batch that is not accepted is an error and changes nothing. -/
theorem insertBatch_of_not_accepts {store : MemStore F} {nodes : List (Node F)}
    (refused : ¬ store.Accepts nodes) : ∃ error, insertBatch nodes store = .error error store := by
  rw [insertBatch_run]
  cases rejected : nodes.findSome? store.rejection with
  | some reason => exact ⟨_, rfl⟩
  | none =>
    cases duplicate : store.firstDuplicate nodes [] with
    | some id => exact ⟨_, rfl⟩
    | none => exact absurd ((accepts_iff store nodes).mpr ⟨rejected, duplicate⟩) refused

/-- Insertions one by one succeed exactly when the store accepts all the nodes. -/
theorem outcomes_inserts_iff (nodes : List (Node F)) : ∀ store : MemStore F,
    (∀ result ∈ store.outcomes (nodes.map .insert), result = .ok .done) ↔
      store.Accepts nodes := by
  induction nodes with
  | nil =>
    intro store
    exact ⟨fun _ => ⟨by simp, by simp, List.nodup_nil⟩, fun _ => by simp [outcomes]⟩
  | cons node rest inductionHypothesis =>
    intro store
    rw [List.map_cons, outcomes, List.forall_mem_cons, outcome_insert_iff,
      accepts_cons store node rest]
    refine and_congr_right fun accepts => ?_
    rw [inductionHypothesis, after_insert_of_accepts accepts]

theorem run_inserts {nodes : List (Node F)} : ∀ {store : MemStore F}, store.Accepts nodes →
    store.run (nodes.map .insert) = store.admitted nodes := by
  induction nodes with
  | nil => exact fun _ => rfl
  | cons node rest inductionHypothesis =>
    intro store accepts
    obtain ⟨first, later⟩ := (accepts_cons store node rest).mp accepts
    rw [admitted_cons, ← inductionHypothesis later, ← after_insert_of_accepts first]
    rfl

/-- Two stores that cannot be told apart by their nodes, their lookups, their indices in
memory and what they sent to their subscribers. -/
structure SameView (store other : MemStore F) : Prop where
  nodeAt : ∀ id, other.nodeAt id = store.nodeAt id
  lookupByEntity : ∀ entity,
    answer (lookupByEntity entity) other = answer (lookupByEntity entity) store
  lookupByPred : ∀ head, answer (lookupByPred head) other = answer (lookupByPred head) store
  lookupByDoc : ∀ doc, answer (lookupByDoc doc) other = answer (lookupByDoc doc) store
  lookupValidAt : ∀ t, answer (lookupValidAt t) other = answer (lookupValidAt t) store
  depsRev : other.depsRev = store.depsRev
  byValidity : other.byValidity = store.byValidity
  subscriptions : other.subscriptions = store.subscriptions

theorem answer_lookupIndex (store : MemStore F) (cf : Cf) (key : String) :
    answer (lookupIndex cf key) store =
      .ok ((store.scan cf (Utf8.ofString key)).filterMap store.activeAt) :=
  answer_ok (lookupIndex_run store cf key)

/-- A log is not part of what is seen of a store. -/
theorem sameView_log (store : MemStore F) (entry : WalEntry F) :
    SameView store (store.log entry) where
  nodeAt _ := rfl
  lookupByEntity _ := by
    rw [FactumStore.lookupByEntity, answer_lookupIndex, answer_lookupIndex]
    rfl
  lookupByPred _ := by
    rw [FactumStore.lookupByPred, answer_lookupIndex, answer_lookupIndex]
    rfl
  lookupByDoc _ := by
    rw [FactumStore.lookupByDoc, answer_lookupIndex, answer_lookupIndex]
    rfl
  lookupValidAt t := by
    rw [answer_ok (lookupValidAt_run store t), answer_ok (lookupValidAt_run (store.log entry) t)]
    rfl
  depsRev := rfl
  byValidity := rfl
  subscriptions := rfl

/-- A batch succeeds exactly when its insertions one by one do. It then leaves what they
leave, but for the log; otherwise it is an error and changes nothing. -/
theorem insertBatch_refines_inserts (store : MemStore F) (nodes : List (Node F)) :
    (store.outcome (.insertBatch nodes) = .ok .done ↔
      ∀ result ∈ store.outcomes (nodes.map .insert), result = .ok .done) ∧
    (store.outcome (.insertBatch nodes) = .ok .done →
      SameView (store.run (nodes.map .insert)) (store.after (.insertBatch nodes))) ∧
    (store.outcome (.insertBatch nodes) ≠ .ok .done →
      (∃ error, store.outcome (.insertBatch nodes) = .error error) ∧
        store.after (.insertBatch nodes) = store) := by
  have mapped : store.outcome (.insertBatch nodes) =
      (answer (insertBatch nodes) store).map fun _ => .done := answer_bind_pure _ _ _
  rw [outcomes_inserts_iff]
  by_cases accepts : store.Accepts nodes
  · have succeeds : store.outcome (.insertBatch nodes) = .ok .done := by
      rw [mapped, answer_ok (insertBatch_of_accepts accepts)]
      rfl
    refine ⟨⟨fun _ => accepts, fun _ => succeeds⟩, fun _ => ?_, fun fails => ?_⟩
    · rw [run_inserts accepts, after_insertBatch_of_accepts accepts]
      exact sameView_log _ _
    · exact absurd succeeds fails
  · obtain ⟨error, refused⟩ := insertBatch_of_not_accepts accepts
    have fails : store.outcome (.insertBatch nodes) = .error error := by
      rw [mapped, answer_error refused]
      rfl
    have notDone : store.outcome (.insertBatch nodes) ≠ .ok .done := by
      rw [fails]
      exact nofun
    refine ⟨⟨fun given => absurd given notDone, fun given => absurd given accepts⟩,
      fun given => absurd given notDone, fun _ => ⟨⟨error, fails⟩, ?_⟩⟩
    exact after_insertBatch_of_not_accepts accepts

/-! ### Replaying the log -/

end FactumStore

/-- What replaying an entry of the log does to a map of nodes. -/
def WalEntry.replay (nodes : AList (fun _ : NodeId => Node F)) :
    WalEntry F → AList (fun _ : NodeId => Node F)
  | .insert node => nodes.insert node.id node
  | .retract id =>
    match nodes.lookup id with
    | some node => nodes.insert id node.retract
    | none => nodes
  | .checkpoint => nodes

/-- Replay a log into an empty map. -/
def replay (entries : List (WalEntry F)) : AList (fun _ : NodeId => Node F) :=
  entries.foldl WalEntry.replay ∅

theorem replay_append (entries : List (WalEntry F)) (entry : WalEntry F) :
    replay (entries ++ [entry]) = WalEntry.replay (replay entries) entry := List.foldl_concat ..

theorem lookup_replay_insert (nodes : AList (fun _ : NodeId => Node F)) (node : Node F)
    (id : NodeId) :
    (WalEntry.replay nodes (.insert node)).lookup id =
      if id = node.id then some node else nodes.lookup id := by
  rw [WalEntry.replay]
  split_ifs with same
  · rw [same, AList.lookup_insert]
  · exact AList.lookup_insert_ne same

theorem lookup_replay_retract (nodes : AList (fun _ : NodeId => Node F)) (retracted id : NodeId) :
    (WalEntry.replay nodes (.retract retracted)).lookup id =
      if id = retracted then (nodes.lookup retracted).map Node.retract else nodes.lookup id := by
  rw [WalEntry.replay]
  cases found : nodes.lookup retracted with
  | none =>
    split_ifs with same
    · rw [same, found]
      rfl
    · rfl
  | some node =>
    split_ifs with same
    · rw [same, AList.lookup_insert]
      rfl
    · exact AList.lookup_insert_ne same

namespace FactumStore

/-- The entries of the log, for replay. -/
def walEntries {B : Type} (store : FactumStore F B) : List (WalEntry F) := store.wal

/-- The log gives the nodes back. -/
def Logged (store : MemStore F) : Prop :=
  ∀ id, (replay store.walEntries).lookup id = store.nodeAt id

theorem Logged.retractNode {store : MemStore F} (logged : store.Logged) (keyed : store.Keyed)
    (id : NodeId) : (store.retractNode id).Logged := by
  intro other
  rw [nodeAt_retractNode keyed]
  cases stored : store.nodeAt id with
  | none =>
    have same : store.retractNode id = store := by rw [FactumStore.retractNode, stored]
    rw [same, logged]
    split_ifs with isOther
    · rw [isOther, stored]
      rfl
    · rfl
  | some node =>
    have wal : (store.retractNode id).walEntries = store.walEntries ++ [.retract id] := by
      rw [FactumStore.retractNode, stored]
      rfl
    rw [wal, replay_append, lookup_replay_retract, logged, logged, stored]

theorem Logged.retractAll (ids : List NodeId) : ∀ {store : MemStore F}, store.Logged →
    store.Keyed → (store.retractAll ids).Logged := by
  induction ids with
  | nil => exact fun logged _ => logged
  | cons id rest inductionHypothesis =>
    exact fun logged keyed => inductionHypothesis (logged.retractNode keyed id)
      (keyed.retractNode id)

theorem Logged.admitted {nodes : List (Node F)} : ∀ {store : MemStore F}, store.Logged →
    store.Accepts nodes → (store.admitted nodes).Logged := by
  induction nodes with
  | nil => exact fun logged _ => logged
  | cons node rest inductionHypothesis =>
    intro store logged accepts
    obtain ⟨first, later⟩ := (accepts_cons store node rest).mp accepts
    rw [admitted_cons]
    refine inductionHypothesis (fun id => ?_) later
    have wal : (store.admitted [node]).walEntries = store.walEntries ++ [.insert node] := by
      rw [walEntries, FactumStore.admitted, foldl_takeNode]
      rfl
    rw [wal, replay_append, lookup_replay_insert, logged, nodeAt_admitted store first.distinct,
      List.find?_cons]
    split_ifs with same
    · rw [same, beq_self_eq_true]
      rfl
    · rw [beq_eq_false_iff_ne.mpr (Ne.symm same)]
      rfl

theorem Logged.checkpoint {store : MemStore F} (logged : store.Logged) :
    (store.log .checkpoint).Logged := by
  intro id
  have marked : (store.log .checkpoint).walEntries = store.walEntries ++ [.checkpoint] := rfl
  rw [marked, replay_append]
  exact logged id

theorem Logged.after {store : MemStore F} (logged : store.Logged) (keyed : store.Keyed)
    (call : Call F) : (store.after call).Logged :=
  after_keeps keyed logged (fun _ accepts => logged.admitted accepts)
    (fun ids => logged.retractAll ids keyed) (fun _ => Logged.checkpoint)
    (fun _ _ _ other => other) call

theorem Reachable.logged {store : MemStore F} (reachable : Reachable store) : store.Logged := by
  induction reachable with
  | empty nodeOrder hasher registry =>
    intro id
    rw [(empty_data nodeOrder hasher registry).1, MemStore.empty_eq]
    rfl
  | step earlier call inductionHypothesis =>
    exact inductionHypothesis.after earlier.consistent.keyed call

/-- After every run the log of a store that started empty gives its nodes back. -/
theorem replay_walEntries (nodeOrder : Hash.Order NodeId) (hasher : Cf → Hash.Order (List UInt8))
    (registry : MorphemeRegistry) (calls : List (Call F)) (id : NodeId) :
    (replay ((MemStore.empty nodeOrder hasher registry : MemStore F).run calls).walEntries).lookup
        id = ((MemStore.empty nodeOrder hasher registry : MemStore F).run calls).nodeAt id :=
  ((Reachable.empty nodeOrder hasher registry).run calls).logged id

/-! ### What stays stored -/

/-- Nothing stored was taken away, and what changed was retracted. -/
def Keeps (store later : MemStore F) : Prop :=
  ∀ id node, store.nodeAt id = some node →
    later.nodeAt id = some node ∨ later.nodeAt id = some node.retract

theorem Keeps.of_nodeAt_eq {store later : MemStore F}
    (same : ∀ id, later.nodeAt id = store.nodeAt id) : Keeps store later := by
  intro id node stored
  exact .inl ((same id).trans stored)

theorem Keeps.trans {store between later : MemStore F} (first : Keeps store between)
    (second : Keeps between later) : Keeps store later := by
  intro id node stored
  rcases first id node stored with unchanged | retracted
  · exact second id node unchanged
  · rcases second id node.retract retracted with still | again
    · exact .inr still
    · exact .inr again

theorem keeps_after {store : MemStore F} (keyed : store.Keyed) (call : Call F) :
    Keeps store (store.after call) := by
  rcases after_cases keyed call with same | ⟨accepts, same⟩ | ⟨id, maxNodes, _, _, same⟩
  · exact .of_nodeAt_eq same.nodeAt
  · intro id node stored
    rw [same.nodeAt]
    exact .inl ((nodeAt_admitted_eq_some accepts id node).mpr (.inr stored))
  · intro other node stored
    rw [same.nodeAt, nodeAt_retractAll _ keyed, stored]
    split_ifs
    · exact .inr rfl
    · exact .inl rfl

end FactumStore

/-- What a caller may ask of a store: a call, or a retraction with the default limit. -/
inductive Request (F : Type) where
  | perform (call : Call F)
  | retract (id : NodeId)

/-- The call that a request comes to. -/
def Request.asCall : Request F → Call F
  | .perform call => call
  | .retract id => .retractWithLimit id defaultMaxCascadeNodes

namespace FactumStore

/-- Serve a request. -/
def serve {B : Type} [StorageBackend F B] : Request F → StoreM F B Unit
  | .perform call => discard (perform call)
  | .retract id => discard (retract id)

/-- The store after some requests. -/
def served {B : Type} [StorageBackend F B] (store : FactumStore F B)
    (requests : List (Request F)) : FactumStore F B :=
  requests.foldl (fun store request => final (serve request) store) store

theorem final_discard {B α : Type} (method : StoreM F B α) (store : FactumStore F B) :
    final (discard method) store = final method store := final_bind_pure method _ store

theorem final_serve (store : MemStore F) (request : Request F) :
    final (serve request) store = store.after request.asCall := by
  cases request with
  | perform call => exact final_discard (perform call) store
  | retract id =>
    have called : store.after (.retractWithLimit id defaultMaxCascadeNodes) =
        final (retractWithLimit id defaultMaxCascadeNodes) store := final_bind_pure _ _ _
    rw [serve, final_discard, Request.asCall, called]
    exact final_bind_pure _ _ _

/-- Requests come to calls. -/
theorem served_eq (requests : List (Request F)) : ∀ store : MemStore F,
    store.served requests = store.run (requests.map Request.asCall) := by
  induction requests with
  | nil => exact fun _ => rfl
  | cons request rest inductionHypothesis =>
    intro store
    rw [List.map_cons]
    show served (final (serve request) store) rest = run (store.after request.asCall) _
    rw [final_serve, inductionHypothesis]

theorem keeps_run (calls : List (Call F)) : ∀ {store : MemStore F}, Reachable store →
    Keeps store (store.run calls) := by
  induction calls with
  | nil => exact fun _ => .of_nodeAt_eq fun _ => rfl
  | cons call rest inductionHypothesis =>
    intro store reachable
    exact (keeps_after reachable.consistent.keyed call).trans
      (inductionHypothesis (reachable.step call))

/-- The trail is append-only: what is stored stays stored under its identifier, with no
change but a retraction, and no insertion or batch that names the identifier is accepted. -/
theorem stored_stays {store : MemStore F} (reachable : Reachable store)
    (requests : List (Request F)) {id : NodeId} {node : Node F}
    (stored : store.nodeAt id = some node) :
    ((store.served requests).nodeAt id = some node ∨
      (store.served requests).nodeAt id = some { node with status := .retracted }) ∧
    (∀ other, other.id = id → ∃ error,
      insert other (store.served requests) = .error error (store.served requests)) ∧
    ∀ nodes, (∃ other ∈ nodes, other.id = id) → ∃ error,
      insertBatch nodes (store.served requests) = .error error (store.served requests) := by
  rw [served_eq]
  have kept := keeps_run (requests.map Request.asCall) reachable id node stored
  obtain ⟨now, storedNow⟩ : ∃ now,
      (store.run (requests.map Request.asCall)).nodeAt id = some now :=
    kept.elim (fun unchanged => ⟨_, unchanged⟩) (fun retracted => ⟨_, retracted⟩)
  refine ⟨kept, fun other sameId => ?_, fun nodes named => ?_⟩
  · rw [insert_run, sameId, storedNow]
    cases (store.run (requests.map Request.asCall)).rejection other with
    | some reason => exact ⟨_, rfl⟩
    | none => exact ⟨_, rfl⟩
  · refine insertBatch_of_not_accepts fun accepts => ?_
    obtain ⟨other, member, sameId⟩ := named
    have fresh := accepts.fresh other member
    rw [sameId, storedNow] at fresh
    cases fresh

/-- A premise that is stored and retracted later is still there. -/
theorem stored_stays_premise :
    ((supportedStore.served [.retract ⟨"n1"⟩, .perform (.insert premise)]).nodeAt ⟨"n1"⟩ =
        some premise ∨
      (supportedStore.served [.retract ⟨"n1"⟩, .perform (.insert premise)]).nodeAt ⟨"n1"⟩ =
        some { premise with status := .retracted }) ∧
    (∀ other : Node Rat, other.id = ⟨"n1"⟩ → ∃ error,
      insert other (supportedStore.served [.retract ⟨"n1"⟩, .perform (.insert premise)]) =
        .error error (supportedStore.served [.retract ⟨"n1"⟩, .perform (.insert premise)])) ∧
    ∀ nodes : List (Node Rat), (∃ other ∈ nodes, other.id = ⟨"n1"⟩) → ∃ error,
      insertBatch nodes (supportedStore.served [.retract ⟨"n1"⟩, .perform (.insert premise)]) =
        .error error (supportedStore.served [.retract ⟨"n1"⟩, .perform (.insert premise)]) :=
  stored_stays reachable_supportedStore _ nodeAt_supportedStore

end FactumStore

end Factum
