/-
This file is about whether a cascade that was cut is reported.

Three tools retract nodes. One asks the store whether the cascade was cut and adds an event
when it was; an upsert and the rejection of an event call the entry point that forgets it.
So a run of the handler reports every cut exactly when no cascade of those two has more
nodes than the default limit.
-/

import Factum.Asserts

namespace Factum

open Stateful

variable {D F : Type}

/-- A cascade that a call runs: the store before it, its root and its limit. -/
structure CascadeRun (F : Type) where
  store : MemStore F
  root : NodeId
  limit : Nat

namespace CascadeRun

open FactumStore

/-- The cascade stops at its limit with active derived dependents left: of its root, or of
another node that it retracted. -/
def StopsShort (cascade : CascadeRun F) : Prop :=
  ∃ result later,
    retractWithLimit cascade.root cascade.limit cascade.store = .ok result later ∧
      cascade.limit ≤ result.retracted.length ∧
      ∃ dep, (dep = cascade.root ∨ dep ∈ result.retracted) ∧ ∃ id node,
        later.nodeAt id = some node ∧ node.isActiveDerived = true ∧ dep ∈ node.deps

/-- The cascade finds something to retract, and more than its limit. -/
def Overflows (cascade : CascadeRun F) : Prop :=
  cascade.store.Retracts cascade.root cascade.limit ∧
    cascade.limit < (cascade.store.fullCascade cascade.root).ncard

/-- A cascade with something to retract is reported as cut exactly when it overflows. -/
theorem overflows_iff (cascade : CascadeRun F) (keyed : cascade.store.Keyed)
    (retracts : cascade.store.Retracts cascade.root cascade.limit) :
    ∃ depth, retractWithLimit cascade.root cascade.limit cascade.store =
        .ok (resultOf (cascade.store.cascadeTrace cascade.root cascade.limit) depth)
          (cascade.store.after (.retractWithLimit cascade.root cascade.limit)) ∧
      ((cascade.store.cascadeTrace cascade.root cascade.limit).truncated = true ↔
        cascade.Overflows) := by
  obtain ⟨node, stored, live⟩ := retracts.live
  obtain ⟨depth, ran⟩ := retractWithLimit_run keyed stored live retracts.positive
  refine ⟨depth, ?_, ?_⟩
  · rw [after_retract_of_retracts keyed retracts]
    exact ran
  · rw [cascadeTrace_truncated_iff cascade.store stored retracts.positive]
    exact (and_iff_right retracts).symm

/-- A cascade with a limit stops short exactly when it overflows. -/
theorem stopsShort_iff {cascade : CascadeRun F} (consistent : cascade.store.Consistent)
    (positive : 0 < cascade.limit) : cascade.StopsShort ↔ cascade.Overflows := by
  obtain ⟨store, root, limit⟩ := cascade
  have keyed := consistent.keyed
  by_cases retracts : store.Retracts root limit
  · obtain ⟨depth, ran, isCut⟩ := overflows_iff ⟨store, root, limit⟩ keyed retracts
    rw [← isCut]
    have nodeAtLater : ∀ id, (store.after (.retractWithLimit root limit)).nodeAt id =
        if id ∈ (store.cascadeTrace root limit).marked then (store.nodeAt id).map Node.retract
        else store.nodeAt id := by
      rw [after_retract_of_retracts keyed retracts]
      exact nodeAt_retractAll _ keyed
    have rootMarked := store.root_mem_cascadeTrace root limit
    constructor
    · rintro ⟨result, later, ran', _, dep, isDep, id, node, stored, activeDerived, named⟩
      cases ran.symm.trans ran'
      have depMarked : dep ∈ (store.cascadeTrace root limit).marked :=
        isDep.elim (fun isRoot => isRoot ▸ rootMarked) fun marked => marked
      by_contra complete
      have marked := store.mem_cascadeTrace_iff positive
        (show (store.cascadeTrace root limit).truncated = false by simpa using complete)
      rw [nodeAtLater] at stored
      split_ifs at stored with isMarked
      · obtain ⟨before, _, rfl⟩ := Option.map_eq_some_iff.mp stored
        simp [Node.isActiveDerived, Node.retract] at activeDerived
      · refine isMarked ((marked id).mpr (.tail ((marked dep).mp depMarked) ?_))
        exact (edge_iff consistent dep id).mpr ⟨node, stored, activeDerived, named⟩
    · intro cut
      rcases (store.cascadeTrace_run root positive).cut cut with
        impossible | ⟨full, other, ⟨start, isRoot, path⟩, unmarked⟩
      · exact absurd impossible (by simp [Marking.Trace.empty])
      · subst isRoot
        obtain ⟨dep, marked, id, notMarked, edge⟩ :=
          Marking.exists_edge_out _ _ {id | id ∈ (store.cascadeTrace start limit).marked} path
            rootMarked unmarked
        obtain ⟨node, stored, activeDerived, named⟩ := (edge_iff consistent dep id).mp edge
        have stays := (nodeAtLater id).trans (if_neg notMarked)
        exact ⟨_, _, ran, full.ge, dep, .inr marked, id, node, stays.trans stored, activeDerived,
          named⟩
  · refine iff_of_false ?_ fun overflows => retracts overflows.1
    rintro ⟨result, later, ran, full, _⟩
    have nothing : result.retracted = [] := by
      cases stored : store.nodeAt root with
      | none => cases (retractWithLimit_notFound stored positive).symm.trans ran
      | some node =>
        by_cases gone : node.status = .retracted
        · cases (retractWithLimit_retracted stored gone positive).symm.trans ran
          rfl
        · exact absurd ⟨positive, node, stored, gone⟩ retracts
    rw [nothing] at full
    exact absurd positive (Nat.not_lt.mpr full)

/-- The store says of a cascade that stops short that it was cut. -/
theorem truncated_of_stopsShort {cascade : CascadeRun F} (consistent : cascade.store.Consistent)
    (short : cascade.StopsShort) :
    ∃ result later,
      retractWithLimit cascade.root cascade.limit cascade.store = .ok result later ∧
        result.truncated = true := by
  by_cases positive : 0 < cascade.limit
  · have overflows := (stopsShort_iff consistent positive).mp short
    obtain ⟨depth, ran, isCut⟩ := cascade.overflows_iff consistent.keyed overflows.1
    exact ⟨_, _, ran, isCut.mpr overflows⟩
  · obtain ⟨store, root, limit⟩ := cascade
    obtain rfl : limit = 0 := Nat.eq_zero_of_not_pos positive
    exact ⟨_, _, retractWithLimit_zero store root, rfl⟩

/-- A cascade overflows when its root alone has more dependents than the limit. -/
theorem overflows_of_dependents {cascade : CascadeRun F} (consistent : cascade.store.Consistent)
    (retracts : cascade.store.Retracts cascade.root cascade.limit) {ids : Finset NodeId}
    (many : cascade.limit < ids.card)
    (dependents : ∀ id ∈ ids, ∃ node, cascade.store.nodeAt id = some node ∧
      node.isActiveDerived = true ∧ cascade.root ∈ node.deps) : cascade.Overflows := by
  obtain ⟨root, stored, _⟩ := retracts.live
  have reached : (ids : Set NodeId) ⊆ cascade.store.fullCascade cascade.root :=
    fun id member => .single ((edge_iff consistent _ id).mpr (dependents id member))
  have counted := Set.ncard_le_ncard reached (fullCascade_finite stored)
  rw [Set.ncard_coe_finset] at counted
  exact ⟨retracts, many.trans_le counted⟩

end CascadeRun

namespace McpHandler

open FactumStore

/-! ### The cascades of a call -/

/-- The retractions of some nodes with the default limit, one after the other. -/
def eachCascade : MemStore F → List String → List (CascadeRun F)
  | _, [] => []
  | store, nodeId :: rest =>
    ⟨store, ⟨nodeId⟩, defaultMaxCascadeNodes⟩ ::
      eachCascade (store.after (.retractWithLimit ⟨nodeId⟩ defaultMaxCascadeNodes)) rest

theorem mem_eachCascade {nodeIds : List String} {store : MemStore F} (reachable : Reachable store)
    {cascade : CascadeRun F} (member : cascade ∈ eachCascade store nodeIds) :
    Reachable cascade.store ∧ cascade.limit = defaultMaxCascadeNodes := by
  induction nodeIds generalizing store with
  | nil => cases member
  | cons nodeId rest inductionHypothesis =>
    rcases List.mem_cons.mp member with rfl | later
    · exact ⟨reachable, rfl⟩
    · exact inductionHypothesis (reachable.step _) later

/-- Retracting the nodes of an event runs their cascades and leaves the queue alone. -/
theorem retractEach_run : ∀ (nodeIds retractedNodes errors : List String)
    (handler : MemHandler F), Reachable handler.store →
      ∃ lists, retractEach nodeIds retractedNodes errors handler = .ok lists { handler with
        store := handler.store.run (nodeIds.map fun nodeId =>
          .retractWithLimit ⟨nodeId⟩ defaultMaxCascadeNodes) }
  | [], retractedNodes, errors, _, _ => ⟨(retractedNodes, errors), rfl⟩
  | nodeId :: rest, retractedNodes, errors, handler, reachable => by
    obtain ⟨result, ran, _⟩ := attempt_retract handler reachable.consistent.keyed ⟨nodeId⟩
    have later := reachable.step (.retractWithLimit ⟨nodeId⟩ defaultMaxCascadeNodes)
    rw [retractEach, bind_ok ran]
    cases result with
    | ok retracted => exact retractEach_run rest _ errors _ later
    | error error => exact retractEach_run rest retractedNodes _ _ later

section Calls

variable [F32 F] (out : WriteOutside D F)

/-- The cascades that a call of the handler runs. -/
inductive Runs (handler : MemHandler F) (call : HandlerCall D) : CascadeRun F → Prop
  | retract {args : Json D} {params : FactumRetractParams} (isCall : call.tool = .retract args)
      (decoded : out.retractParams args = .ok params) :
      Runs handler call ⟨handler.store, ⟨params.nodeId⟩, params.maxCascadeNodes.getD 100⟩
  | upsert {args : Json D} {params : FactumUpsertParams} {node old : Node F}
      (isCall : call.tool = .upsert args) (reads : UpsertReads out args params node)
      (accepts : handler.store.Accepts [node])
      (found : replacedNodes handler.store params = [old]) :
      Runs handler call ⟨handler.store.admitted [node], old.id, defaultMaxCascadeNodes⟩
  | reject {args : Json D} {eventId : UInt64} {event : ReviewEvent} {cascade : CascadeRun F}
      (isCall : call.tool = .review args)
      (isReject : (args.get? "mode").bind Json.asStr? = some "reject")
      (isId : eventIdOf args = some eventId)
      (found : handler.reviewQueue.get eventId = some event) (isPending : event.isPending = true)
      (member : cascade ∈ eachCascade handler.store event.nodeIds) :
      Runs handler call cascade

/-- An event of high priority that reports the cut of a cascade and is pending. -/
def Reports (cascade : CascadeRun F) (event : ReviewEvent) : Prop :=
  event.eventType = .cascadeTruncated ∧ event.priority = .high ∧ event.status = .pending ∧
    event.nodeIds = [cascade.root.asStr]

/-- For each cascade of a call that stops short the call adds an event that reports it. -/
def ReportsCuts (handler : MemHandler F) (call : HandlerCall D) : Prop :=
  ∀ cascade, Runs out handler call cascade → cascade.StopsShort →
    ∃ event, Reports cascade event ∧
      ReviewQueue.Adds handler.reviewQueue (handler.after out call).reviewQueue event

/-- A call is a retraction, or none of its cascades overflows. -/
def CutsOnlyInRetract (handler : MemHandler F) (call : HandlerCall D) : Prop :=
  (∃ args, call.tool = .retract args) ∨
    ∀ cascade, Runs out handler call cascade → ¬ cascade.Overflows

variable {out} {handler : MemHandler F} {call : HandlerCall D} {cascade : CascadeRun F}

/-- The store that a cascade starts from is consistent. -/
theorem Runs.consistent (runs : Runs out handler call cascade)
    (reachable : Reachable handler.store) : cascade.store.Consistent := by
  cases runs with
  | retract => exact reachable.consistent
  | upsert isCall reads accepts => exact reachable.consistent.admitted accepts
  | reject isCall isReject isId found isPending member =>
    exact (mem_eachCascade reachable member).1.consistent

omit [F32 F] in
/-- A retraction whose cascade was cut adds an event for it. -/
theorem toolRetract_cut (out : WriteOutside D F) (req : JsonRpcRequest D) {args : Json D}
    {params : FactumRetractParams}
    (decoded : out.retractParams args = .ok params) {result : RetractResult} {later : MemStore F}
    (ran : retractWithLimit ⟨params.nodeId⟩ (params.maxCascadeNodes.getD 100) handler.store =
      .ok result later) (cut : result.truncated = true) :
    ∃ id reason instant, ReviewQueue.Adds handler.reviewQueue
      (final (toolRetract out req args) handler).reviewQueue
      ⟨id, .cascadeTruncated, .high, [params.nodeId], reason, instant, .pending⟩ := by
  have added := ReviewQueue.adds_enqueue handler.reviewQueue .cascadeTruncated .high
    [params.nodeId] ("Cascade retraction truncated at " ++ toString result.retracted.length ++
      " nodes (depth " ++ toString result.depthReached ++ "). Knowledge base may be in a " ++
      "partially-retracted state. Review and decide whether to continue retraction or restore.")
    out.now
  unfold toolRetract
  rw [decoded]
  dsimp only
  rw [final, bind_ok (attempt_ok ran)]
  dsimp only
  rw [reportCut, if_pos cut]
  exact ⟨_, _, _, added⟩

/-- A retraction reports the cut of its cascade. -/
theorem reports_retract {args : Json D} (isCall : call.tool = .retract args)
    (reachable : Reachable handler.store) : ReportsCuts out handler call := by
  intro cascade runs short
  obtain ⟨result, later, ran, cut⟩ :=
    CascadeRun.truncated_of_stopsShort (runs.consistent reachable) short
  obtain ⟨now, preferredForm, req, tool⟩ := call
  cases runs with
  | retract isRetract decoded =>
    obtain rfl : tool = .retract _ := isRetract
    obtain ⟨id, reason, instant, added⟩ :=
      toolRetract_cut { out with now := now } req decoded ran cut
    exact ⟨_, ⟨rfl, rfl, rfl, rfl⟩, added⟩
  | upsert isUpsert => cases isUpsert.symm.trans isCall
  | reject isReview => cases isReview.symm.trans isCall

omit [F32 F] in
theorem decideEvent_run (decision : ReviewQueue → UInt64 → Except String ReviewQueue)
    (eventId : UInt64) (handler : MemHandler F) :
    decideEvent decision eventId handler =
      match decision handler.reviewQueue eventId with
      | .error message => .ok (.error message) handler
      | .ok queue => .ok (.ok ()) { handler with reviewQueue := queue } := by
  unfold decideEvent
  rw [get_bind_run]
  cases decision handler.reviewQueue eventId <;> rfl

omit [F32 F] in
/-- The rejection of an event adds no pending event. -/
theorem reject_adds_none (req : JsonRpcRequest D) (args : Json D)
    (reachable : Reachable handler.store) {event : ReviewEvent}
    (pending : event.status = .pending) :
    ¬ ReviewQueue.Adds handler.reviewQueue
      (final (reviewReject out req args) handler).reviewQueue event := by
  have unchanged := ReviewQueue.not_adds_self handler.reviewQueue event
  unfold reviewReject
  cases eventIdOf args with
  | none => exact unchanged
  | some eventId =>
    have ran := decideEvent_run ReviewQueue.reject eventId handler
    dsimp only
    cases decided : handler.reviewQueue.reject eventId with
    | error message =>
      rw [decided] at ran
      rw [final, bind_ok ran]
      exact unchanged
    | ok queue =>
      have addsNone : ¬ ReviewQueue.Adds handler.reviewQueue queue event :=
        ReviewQueue.not_adds_decideWith decided (by simp [pending])
      rw [decided] at ran
      rw [final, bind_ok ran]
      dsimp only
      rw [get_bind_run]
      cases found : queue.get eventId with
      | none => exact addsNone
      | some rejected =>
        obtain ⟨lists, retracts⟩ := retractEach_run rejected.nodeIds [] []
          { handler with reviewQueue := queue } reachable
        dsimp only
        rw [bind_ok retracts]
        exact addsNone

/-- Where a call is not a retraction, its cascades have the default limit. -/
theorem Runs.limit (runs : Runs out handler call cascade) (reachable : Reachable handler.store)
    (other : ∀ args, call.tool ≠ .retract args) : cascade.limit = defaultMaxCascadeNodes := by
  cases runs with
  | retract isCall => exact absurd isCall (other _)
  | upsert => rfl
  | reject isCall isReject isId found isPending member => exact (mem_eachCascade reachable member).2

/-- An upsert that replaces a node, and the rejection of an event, add no pending event. -/
theorem Runs.adds_none (runs : Runs out handler call cascade)
    (reachable : Reachable handler.store) (other : ∀ args, call.tool ≠ .retract args)
    {event : ReviewEvent} (pending : event.status = .pending) :
    ¬ ReviewQueue.Adds handler.reviewQueue (handler.after out call).reviewQueue event := by
  obtain ⟨now, preferredForm, req, tool⟩ := call
  cases runs with
  | retract isCall => exact absurd isCall (other _)
  | upsert isCall reads accepts found =>
    obtain rfl : tool = .upsert _ := isCall
    obtain ⟨reply, later, ran, upserted⟩ := upserted_of_reads req (reads.at_ now)
      reachable.consistent
    have isLater : handler.after out ⟨now, preferredForm, req, .upsert _⟩ = later := final_ok ran
    rw [isLater]
    cases upserted with
    | refused => exact ReviewQueue.not_adds_self _ _
    | inserted => exact ReviewQueue.not_adds_self _ _
    | updated => exact ReviewQueue.not_adds_self _ _
    | ambiguous queue action several => simp [found] at several
  | @reject args _ _ _ isCall isReject =>
    obtain rfl : tool = .review args := isCall
    have isMode : handler.after out ⟨now, preferredForm, req, .review args⟩ =
        final (reviewReject { out with now := now } req args) handler := by
      unfold after handle
      dsimp only
      unfold toolReview
      rw [isReject]
      rfl
    rw [isMode]
    exact reject_adds_none req args reachable pending

/-- One call reports its cuts exactly when only a retraction has any. -/
theorem reportsCuts_iff (reachable : Reachable handler.store) (call : HandlerCall D) :
    ReportsCuts out handler call ↔ CutsOnlyInRetract out handler call := by
  by_cases isRetract : ∃ args, call.tool = .retract args
  · obtain ⟨args, isCall⟩ := isRetract
    exact iff_of_true (reports_retract isCall reachable) (.inl ⟨args, isCall⟩)
  · have other : ∀ args, call.tool ≠ .retract args := fun args isCall => isRetract ⟨args, isCall⟩
    have short : ∀ {cascade}, Runs out handler call cascade →
        (cascade.StopsShort ↔ cascade.Overflows) := fun runs =>
      CascadeRun.stopsShort_iff (runs.consistent reachable)
        (runs.limit reachable other ▸ (by decide))
    constructor
    · refine fun reports => .inr fun cascade runs overflows => ?_
      obtain ⟨event, isReport, added⟩ := reports cascade runs ((short runs).mpr overflows)
      exact runs.adds_none reachable other isReport.2.2.1 added
    · rintro (isCall | none_) cascade runs stops
      · exact absurd isCall isRetract
      · exact absurd ((short runs).mp stops) (none_ cascade runs)

/-- Throughout a run of the handler every cascade that stops short is reported exactly when
only retractions run cascades that overflow. -/
theorem cuts_reported_iff (reachable : Reachable handler.store) (calls : List (HandlerCall D)) :
    Along out (ReportsCuts out) handler calls ↔ Along out (CutsOnlyInRetract out) handler calls :=
  along_iff out (fun _ call reachable => reportsCuts_iff reachable call) calls reachable

end Calls

/-! ### A place with many conclusions -/

/-- The ID of a conclusion. -/
def conclusionId (i : Nat) : NodeId := ⟨String.ofList (List.replicate (i + 1) 'c')⟩

/-- A node that is derived from the asserted place. -/
def conclusionNode (i : Nat) : Node Rat :=
  { Node.new (conclusionId i).asStr ⟨.name "noted", [], []⟩ with
    provenance := .derived ⟨placeId⟩ ⟨"r1"⟩
    deps := [⟨placeId⟩] }

theorem conclusionId_injective : Function.Injective conclusionId := by
  intro i j same
  have sameList := congrArg (fun id => id.asStr.toList.length) same
  simpa [conclusionId] using sameList

theorem conclusionId_ne_placeId (i : Nat) : conclusionId i ≠ ⟨placeId⟩ := by
  intro same
  have sameHead := congrArg (fun id => id.asStr.toList.head?) same
  have isHead : (placeId.toList).head? = some 'a' := by decide +kernel
  rw [show (NodeId.mk placeId).asStr = placeId from rfl, isHead] at sameHead
  simp [conclusionId, List.replicate_succ] at sameHead

/-- The handler after the place was asserted with full confidence, which added an event. -/
@[irreducible] def placedHandler : MemHandler Rat := blankHandler.after sampleWrites assertPlace

theorem reachable_placedHandler : Reachable placedHandler.store := by
  unfold placedHandler
  exact reachable_after sampleWrites reachable_blankHandler assertPlace

/-- The conclusions of the place are new to its store. -/
theorem accepts_conclusions :
    placedHandler.store.Accepts ((List.range 101).map conclusionNode) := by
  have unverified : placedHandler.store.verifiers.isNone = true := by decide +kernel
  have onlyPlace : ∀ node ∈ placedHandler.store.backend.nodes.values, node.id = ⟨placeId⟩ := by
    decide +kernel
  refine ⟨fun node _ => ?_, fun node member => ?_, ?_⟩
  · rw [FactumStore.rejection, Option.isNone_iff_eq_none.mp unverified]
  · obtain ⟨i, _, rfl⟩ := List.mem_map.mp member
    by_contra stored
    obtain ⟨node, isStored⟩ := Option.ne_none_iff_exists'.mp stored
    have isValue := (Hash.Map.mem_values_iff placedHandler.store.backend.nodes node).mpr
      ⟨_, isStored⟩
    have isId := reachable_placedHandler.consistent.keyed _ _ isStored
    exact conclusionId_ne_placeId i (isId.symm.trans (onlyPlace node isValue))
  · rw [List.map_map]
    exact List.nodup_range.map conclusionId_injective

/-- The store of that handler after a hundred and one conclusions of the place were inserted. -/
@[irreducible] def crowded : MemStore Rat :=
  placedHandler.store.after (.insertBatch ((List.range 101).map conclusionNode))

theorem reachable_crowded : Reachable crowded := by
  unfold crowded
  exact reachable_placedHandler.step _

theorem nodeAt_crowded (id : NodeId) (node : Node Rat) :
    crowded.nodeAt id = some node ↔ node ∈ (List.range 101).map conclusionNode ∧ node.id = id ∨
      placedHandler.store.nodeAt id = some node := by
  have checkpoint : ∀ store : MemStore Rat, (store.log .checkpoint).nodeAt id = store.nodeAt id :=
    fun _ => rfl
  rw [← nodeAt_admitted_eq_some accepts_conclusions id node, crowded,
    after_insertBatch_of_accepts accepts_conclusions, checkpoint]

theorem nodeAt_placedHandler : placedHandler.store.nodeAt ⟨placeId⟩ =
    some (assertNode ⟨"", none, some 1, none⟩ placeId premise.predicate) := by
  decide +kernel

/-- The cascade of the place has more nodes than the default limit. -/
theorem overflows_place :
    CascadeRun.Overflows ⟨crowded, ⟨placeId⟩, defaultMaxCascadeNodes⟩ := by
  have retracts : crowded.Retracts ⟨placeId⟩ defaultMaxCascadeNodes :=
    ⟨by decide, _, (nodeAt_crowded _ _).mpr (.inr nodeAt_placedHandler), by decide⟩
  have many : defaultMaxCascadeNodes <
      ((Finset.range 101).map ⟨conclusionId, conclusionId_injective⟩).card := by
    rw [Finset.card_map, Finset.card_range]
    decide
  refine CascadeRun.overflows_of_dependents reachable_crowded.consistent retracts many ?_
  intro id member
  obtain ⟨i, inRange, rfl⟩ := Finset.mem_map.mp member
  have listed : conclusionNode i ∈ (List.range 101).map conclusionNode :=
    List.mem_map_of_mem (List.mem_range.mpr (Finset.mem_range.mp inRange))
  exact ⟨conclusionNode i, (nodeAt_crowded _ _).mpr (.inl ⟨listed, rfl⟩), rfl, List.mem_cons_self⟩

/-- The handler over that store, with the event of the assertion in its queue. -/
def crowdedHandler : MemHandler Rat := ⟨crowded, placedHandler.reviewQueue⟩

/-- A rejection of the event that the assertion added. -/
def rejectPlace : HandlerCall Unit :=
  sampleCall (.review (.obj [("mode", .str "reject"), ("event_id", .int 1)]))

/-- The rejection retracts the place and leaves some of its conclusions active, and no event is
added. -/
theorem reject_cut_unreported :
    ∃ (handler : MemHandler Rat) (call : HandlerCall Unit), Reachable handler.store ∧
      ¬ ReportsCuts sampleWrites handler call := by
  refine ⟨crowdedHandler, rejectPlace, reachable_crowded, fun reports => ?_⟩
  have queued : (placedHandler.reviewQueue.get 1).map (fun event =>
      (event.isPending, event.nodeIds)) = some (true, [placeId]) := by
    decide +kernel
  obtain ⟨event, found, isEvent⟩ := Option.map_eq_some_iff.mp queued
  obtain ⟨isPending, isPlace⟩ := Prod.mk.inj isEvent
  have runs : Runs sampleWrites crowdedHandler rejectPlace
      ⟨crowded, ⟨placeId⟩, defaultMaxCascadeNodes⟩ :=
    .reject rfl rfl rfl found isPending (by rw [isPlace]; exact List.mem_cons_self)
  rcases (reportsCuts_iff reachable_crowded rejectPlace).mp reports with
    ⟨args, isRetract⟩ | none_
  · cases isRetract
  · exact none_ _ runs overflows_place

/-- A retraction of the place with the default limit. -/
theorem cuts_reported_iff_place :
    Along sampleWrites (ReportsCuts sampleWrites) crowdedHandler [retractPlace] :=
  (cuts_reported_iff reachable_crowded _).mpr ⟨.inl ⟨_, rfl⟩, trivial⟩

end McpHandler

end Factum
