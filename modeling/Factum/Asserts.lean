/-
This file is about what an assertion that succeeds says of the store.

An assertion takes an ID from the text of its predicate and inserts an active node under it.
When the ID is in use the reply is a success all the same, so it is truthful only if some
active node has the predicate: the node with the ID may be retracted, or have another
predicate. Before that the confidence is checked, and one outside its band adds an event
that names the ID whether or not the node is inserted, so a repeated assertion leaves the
handler alone only if its confidence lies in the band.
-/

import Factum.HandlerRuns
import Factum.Upserts

namespace Factum

open Stateful

variable {D F : Type}

namespace McpHandler

open FactumStore

/-! ### What an assertion does -/

section Runs

variable [F32 F] {out : WriteOutside D F} {req : JsonRpcRequest D} {args : Json D}
  {params : FactumAssertParams F} {predicate : Predicate}

/-- The arguments of an assertion are read as these parameters and this predicate. -/
structure AssertReads (out : WriteOutside D F) (args : Json D) (params : FactumAssertParams F)
    (predicate : Predicate) : Prop where
  decoded : out.assertParams args = .ok params
  parsed : Parser.parsePredicate out.host params.predicate = .ok predicate

omit [F32 F] in
theorem AssertReads.unique {params' : FactumAssertParams F} {predicate' : Predicate}
    (reads : AssertReads out args params predicate)
    (reads' : AssertReads out args params' predicate') :
    params = params' ∧ predicate = predicate' := by
  obtain rfl : params = params' := Except.ok.inj (reads.decoded.symm.trans reads'.decoded)
  exact ⟨rfl, Except.ok.inj (reads.parsed.symm.trans reads'.parsed)⟩

omit [F32 F] in
/-- The time of a call does not matter to what it reads. -/
theorem AssertReads.at_ (reads : AssertReads out args params predicate) (now : DateTime) :
    AssertReads { out with now := now } args params predicate := ⟨reads.decoded, reads.parsed⟩

/-- The ID of an asserted predicate. -/
def assertId (out : WriteOutside D F) (predicate : Predicate) : String :=
  generateContentId out.defaultHash (canonicalPredicate out.host predicate)

/-- The node of an asserted predicate, under its ID. -/
def assertedNode (out : WriteOutside D F) (params : FactumAssertParams F)
    (predicate : Predicate) : Node F :=
  assertNode params (assertId out predicate) predicate

/-- What an assertion may do once its confidence is checked. -/
inductive Asserted (out : WriteOutside D F) (handler : MemHandler F)
    (params : FactumAssertParams F) (predicate : Predicate) :
    JsonRpcResponse D → MemHandler F → Prop
  | refused {reply : JsonRpcResponse D} (noAction : reply.action? = none)
      (rejects : handler.store.rejection (assertedNode out params predicate) ≠ none) :
      Asserted out handler params predicate reply handler
  | asserted {reply : JsonRpcResponse D} (action : reply.action? = some "asserted")
      (accepts : handler.store.Accepts [assertedNode out params predicate]) :
      Asserted out handler params predicate reply
        { handler with store := handler.store.admitted [assertedNode out params predicate] }
  | existing {reply : JsonRpcResponse D}
      (action : reply.action? = some "duplicate" ∨ reply.action? = some "corroborated")
      (passes : handler.store.rejection (assertedNode out params predicate) = none)
      (inUse : handler.store.nodeAt ⟨assertId out predicate⟩ ≠ none) :
      Asserted out handler params predicate reply handler

/-- The check of the confidence adds an event exactly when it is outside its band. -/
theorem checkBand_run (out : WriteOutside D F) (params : FactumAssertParams F) (nodeId : String)
    (handler : MemHandler F) :
    ∃ queue, checkBand out params nodeId handler = .ok () { handler with reviewQueue := queue } ∧
      (queue = handler.reviewQueue ↔
        InBand (assertProvenance params) (assertConfidence params)) := by
  have isBand := checkConfidenceBand_eq_ok out.f32Fixed (assertProvenance params)
    (assertConfidence params)
  unfold checkBand
  cases checked : checkConfidenceBand out.f32Fixed (assertProvenance params)
      (assertConfidence params) with
  | ok done => exact ⟨_, rfl, iff_of_true rfl (isBand.mp checked)⟩
  | error bandWarning =>
    refine ⟨_, rfl, iff_of_false (fun same => ?_) fun inBand => ?_⟩
    · exact ReviewQueue.enqueue_ne _ _ _ _ _ _ same
    · rw [isBand.mpr inBand] at checked
      cases checked

omit [F32 F] in
theorem action?_assertExisting (by_ existing nodeId canon : String) :
    (assertExisting out req by_ existing nodeId canon).action? = some "duplicate" ∨
      (assertExisting out req by_ existing nodeId canon).action? = some "corroborated" := by
  unfold assertExisting
  split
  · exact .inl (action?_replyWith _ req (by simp) (by simp))
  · exact .inr (action?_replyWith _ req (by simp) (by simp))

theorem asserted_insert (out : WriteOutside D F) (req : JsonRpcRequest D)
    (params : FactumAssertParams F) (predicate : Predicate) (handler : MemHandler F) :
    ∃ reply later, insertAsserted out req params predicate (assertId out predicate)
        (canonicalPredicate out.host predicate) handler = .ok reply later ∧
      Asserted out handler params predicate reply later := by
  have inserted := attempt_insert handler (assertedNode out params predicate)
  cases rejected : handler.store.rejection (assertedNode out params predicate) with
  | some reason =>
    rw [rejected] at inserted
    exact ⟨_, _, bind_ok inserted, .refused rfl (by simp [rejected])⟩
  | none =>
    rw [rejected] at inserted
    cases stored : handler.store.nodeAt ⟨assertId out predicate⟩ with
    | none =>
      have fresh : handler.store.nodeAt (assertedNode out params predicate).id = none := stored
      have accepts : handler.store.Accepts [assertedNode out params predicate] :=
        ⟨by simpa using rejected, by simpa using fresh, by simp⟩
      refine ⟨_, _, bind_ok (attempt_insert_of_accepts accepts), .asserted ?_ accepts⟩
      exact action?_replyWith _ req (by simp) (by simp)
    | some other =>
      have inUse : handler.store.nodeAt (assertedNode out params predicate).id = some other :=
        stored
      rw [inUse] at inserted
      refine ⟨_, _, (bind_ok inserted).trans (bind_ok (onStore_ok (getById_run _ _))),
        .existing ?_ rejected (by simp [stored])⟩
      exact action?_assertExisting _ _ _ _

/-- What an assertion does, by what the store says to its node. -/
theorem asserted_of_reads (req : JsonRpcRequest D) (reads : AssertReads out args params predicate)
    (handler : MemHandler F) : ∃ queue reply later,
      toolAssert out req args handler = .ok reply later ∧
      (queue = handler.reviewQueue ↔ InBand (assertProvenance params) (assertConfidence params)) ∧
      Asserted out { handler with reviewQueue := queue } params predicate reply later := by
  obtain ⟨decoded, parsed⟩ := reads
  obtain ⟨queue, checked, isBand⟩ := checkBand_run out params (assertId out predicate) handler
  obtain ⟨reply, later, ran, asserted⟩ :=
    asserted_insert out req params predicate { handler with reviewQueue := queue }
  refine ⟨queue, reply, later, ?_, isBand, asserted⟩
  unfold toolAssert
  rw [decoded]
  dsimp only
  rw [parsed, readText_bind_ok]
  exact (bind_ok checked).trans ran

/-- An assertion whose arguments are not read leaves the handler alone and says nothing of an
action. -/
theorem toolAssert_unread (unread : ∀ params predicate, ¬ AssertReads out args params predicate)
    (handler : MemHandler F) : final (toolAssert out req args) handler = handler ∧
      ∀ reply, answer (toolAssert out req args) handler = .ok reply → reply.action? = none := by
  unfold toolAssert
  cases decoded : out.assertParams args with
  | error message =>
    refine ⟨rfl, fun reply replied => ?_⟩
    cases replied
    rfl
  | ok params =>
    dsimp only
    cases parsed : Parser.parsePredicate out.host params.predicate with
    | error stop =>
      cases stop with
      | fail error =>
        refine ⟨rfl, fun reply replied => ?_⟩
        cases replied
        rfl
      | panic => exact ⟨rfl, fun reply replied => by cases replied⟩
      | fuel => exact ⟨rfl, fun reply replied => by cases replied⟩
    | ok predicate => exact absurd ⟨decoded, parsed⟩ (unread params predicate)

end Runs

section Assertions

variable [F32 F] (out : WriteOutside D F)

/-! ### Truthful replies -/

/-- An action that an assertion reports when it succeeds. -/
def isSuccess (reply : JsonRpcResponse D) : Prop :=
  reply.action? = some "asserted" ∨ reply.action? = some "duplicate" ∨
    reply.action? = some "corroborated"

/-- Some active node with this predicate is stored. -/
def Believes (store : MemStore F) (predicate : Predicate) : Prop :=
  ∃ id node, store.nodeAt id = some node ∧ node.status = .active ∧ node.predicate = predicate

/-- After an assertion that replies with success its predicate is believed. -/
def AssertTruthful (handler : MemHandler F) (call : HandlerCall D) : Prop :=
  ∀ args, call.tool = .assert args → ∀ reply, handler.response out call = .ok reply →
    isSuccess reply → ∃ params predicate, AssertReads out args params predicate ∧
      Believes (handler.after out call).store predicate

/-- Before an assertion that the verifiers pass its ID is free, or its predicate is believed. -/
def AssertFounded (handler : MemHandler F) (call : HandlerCall D) : Prop :=
  ∀ args, call.tool = .assert args → ∀ params predicate, AssertReads out args params predicate →
    handler.store.rejection (assertedNode out params predicate) = none →
      handler.store.nodeAt ⟨assertId out predicate⟩ = none ∨ Believes handler.store predicate

variable {out}

/-- An assertion that is answered with an action was read, and did one of three things. -/
theorem asserted_of_response {handler : MemHandler F} {now : DateTime}
    {preferredForm : PreferredForm} {req : JsonRpcRequest D} {args : Json D}
    {reply : JsonRpcResponse D}
    (replied : handler.response out ⟨now, preferredForm, req, .assert args⟩ = .ok reply)
    (acted : reply.action? ≠ none) : ∃ params predicate queue,
      AssertReads out args params predicate ∧
      (queue = handler.reviewQueue ↔ InBand (assertProvenance params) (assertConfidence params)) ∧
      Asserted out { handler with reviewQueue := queue } params predicate reply
        (handler.after out ⟨now, preferredForm, req, .assert args⟩) := by
  by_cases read : ∃ params predicate, AssertReads out args params predicate
  · obtain ⟨params, predicate, reads⟩ := read
    obtain ⟨queue, reply', later, ran, isBand, asserted⟩ := asserted_of_reads
      req (reads.at_ now) handler
    have whole : handle out ⟨now, preferredForm, req, .assert args⟩ handler = .ok reply' later :=
      ran
    obtain rfl : reply' = reply := Except.ok.inj ((answer_ok whole).symm.trans replied)
    rw [after, final_ok whole]
    refine ⟨params, predicate, queue, reads, isBand, ?_⟩
    cases asserted with
    | refused noAction rejects => exact .refused noAction rejects
    | asserted action accepts => exact .asserted action accepts
    | existing action passes inUse => exact .existing action passes inUse
  · have unread : ∀ params predicate, ¬ AssertReads { out with now := now } args params predicate :=
      fun params predicate reads => read ⟨params, predicate, reads.decoded, reads.parsed⟩
    exact absurd ((toolAssert_unread unread handler).2 reply replied) acted

/-- An assertion whose ID is in use and that the verifiers pass is a success. It leaves the store
alone, and the queue exactly when its confidence is in the band. -/
theorem response_of_inUse {handler : MemHandler F} {call : HandlerCall D} {args : Json D}
    (isCall : call.tool = .assert args) {params : FactumAssertParams F} {predicate : Predicate}
    (reads : AssertReads out args params predicate)
    (passes : handler.store.rejection (assertedNode out params predicate) = none)
    (inUse : handler.store.nodeAt ⟨assertId out predicate⟩ ≠ none) :
    ∃ reply queue, handler.response out call = .ok reply ∧
      (reply.action? = some "duplicate" ∨ reply.action? = some "corroborated") ∧
      handler.after out call = { handler with reviewQueue := queue } ∧
      (queue = handler.reviewQueue ↔
        InBand (assertProvenance params) (assertConfidence params)) := by
  obtain ⟨now, preferredForm, req, tool⟩ := call
  obtain rfl : tool = .assert args := isCall
  obtain ⟨queue, reply, later, ran, isBand, asserted⟩ := asserted_of_reads
    req (reads.at_ now) handler
  cases asserted with
  | refused _ rejects => exact absurd passes rejects
  | asserted _ accepts => exact absurd (accepts.fresh _ List.mem_cons_self) inUse
  | existing action => exact ⟨reply, queue, answer_ok ran, action, final_ok ran, isBand⟩

/-- One assertion is truthful exactly when it is founded. -/
theorem assertTruthful_iff (handler : MemHandler F) (call : HandlerCall D) :
    AssertTruthful out handler call ↔ AssertFounded out handler call := by
  constructor
  · intro truthful args isCall params predicate reads passes
    by_cases free : handler.store.nodeAt ⟨assertId out predicate⟩ = none
    · exact .inl free
    · right
      obtain ⟨reply, queue, replied, action, isAfter, _⟩ :=
        response_of_inUse isCall reads passes free
      obtain ⟨params', predicate', reads', believes⟩ :=
        truthful args isCall reply replied (.inr action)
      obtain ⟨rfl, rfl⟩ := reads.unique reads'
      rwa [isAfter] at believes
  · intro founded args isCall reply replied success
    obtain ⟨now, preferredForm, req, tool⟩ := call
    obtain rfl : tool = .assert args := isCall
    have acted : reply.action? ≠ none := by
      rcases success with action | action | action <;> simp [action]
    obtain ⟨params, predicate, queue, reads, _, asserted⟩ := asserted_of_response replied acted
    refine ⟨params, predicate, reads, ?_⟩
    generalize handler.after out ⟨now, preferredForm, req, .assert args⟩ = later at *
    cases asserted with
    | refused noAction => exact absurd noAction acted
    | asserted action accepts =>
      exact ⟨_, assertedNode out params predicate, (nodeAt_admitted_eq_some accepts _ _).mpr
        (.inl ⟨List.mem_cons_self, rfl⟩), rfl, rfl⟩
    | existing action passes inUse =>
      exact (founded args rfl params predicate reads passes).resolve_left inUse

/-- Throughout a run of the handler every assertion that replies with success is truthful
exactly when every assertion is founded. -/
theorem asserts_truthful_iff {handler : MemHandler F} (reachable : Reachable handler.store)
    (calls : List (HandlerCall D)) :
    Along out (AssertTruthful out) handler calls ↔ Along out (AssertFounded out) handler calls :=
  along_iff out (fun handler call _ => assertTruthful_iff handler call) calls reachable

/-! ### Repeated assertions -/

variable (out)

/-- An assertion that replies that its fact was there already leaves the handler alone. -/
def RepeatFrames (handler : MemHandler F) (call : HandlerCall D) : Prop :=
  ∀ args, call.tool = .assert args → ∀ reply, handler.response out call = .ok reply →
    reply.action? = some "duplicate" ∨ reply.action? = some "corroborated" →
      handler.after out call = handler

/-- An assertion that the verifiers pass and whose ID is in use has a confidence in the band. -/
def RepeatInBand (handler : MemHandler F) (call : HandlerCall D) : Prop :=
  ∀ args, call.tool = .assert args → ∀ params predicate, AssertReads out args params predicate →
    handler.store.rejection (assertedNode out params predicate) = none →
      handler.store.nodeAt ⟨assertId out predicate⟩ ≠ none →
        InBand (assertProvenance params) (assertConfidence params)

variable {out}

/-- One repeated assertion changes nothing exactly when its confidence is in the band. -/
theorem repeatFrames_iff (handler : MemHandler F) (call : HandlerCall D) :
    RepeatFrames out handler call ↔ RepeatInBand out handler call := by
  constructor
  · intro frames args isCall params predicate reads passes inUse
    obtain ⟨reply, queue, replied, action, isAfter, isBand⟩ :=
      response_of_inUse isCall reads passes inUse
    have same := (frames args isCall reply replied action).symm.trans isAfter
    exact isBand.mp (congrArg McpHandler.reviewQueue same).symm
  · intro inBand args isCall reply replied action
    have acted : reply.action? ≠ none := by
      rcases action with action | action <;> simp [action]
    obtain ⟨now, preferredForm, req, tool⟩ := call
    obtain rfl : tool = .assert args := isCall
    obtain ⟨params, predicate, queue, reads, isBand, asserted⟩ :=
      asserted_of_response replied acted
    generalize handler.after out ⟨now, preferredForm, req, .assert args⟩ = later at *
    cases asserted with
    | refused noAction => exact absurd noAction acted
    | asserted isAsserted => rcases action with action | action <;> simp [isAsserted] at action
    | existing _ passes inUse =>
      rw [isBand.mpr (inBand args rfl params predicate reads passes inUse)]

/-- Throughout a run of the handler repeated assertions change nothing exactly when the
confidence of each lies in the band. -/
theorem repeats_frame_iff {handler : MemHandler F} (reachable : Reachable handler.store)
    (calls : List (HandlerCall D)) :
    Along out (RepeatFrames out) handler calls ↔ Along out (RepeatInBand out) handler calls :=
  along_iff out (fun handler call _ => repeatFrames_iff handler call) calls reachable

end Assertions

/-! ### A fact that is asserted again -/

/-- The arguments of an assertion of the place, with this confidence. -/
def placeArgs (confidence : Int) : Json Unit :=
  .obj [("predicate", .str "(located-in @A @B)"), ("confidence", .int confidence)]

/-- An assertion of the place with full confidence. -/
def assertPlace : HandlerCall Unit := sampleCall (.assert (placeArgs 1))

/-- The ID of the asserted place: its text has eighteen characters. -/
def placeId : String := "auto-000000000012"

/-- A retraction of the asserted place. -/
def retractPlace : HandlerCall Unit := sampleCall (.retract (.obj [("node_id", .str placeId)]))

/-- A handler over an empty store. -/
def blankHandler : MemHandler Rat := .new blank

theorem reachable_blankHandler : Reachable blankHandler.store := .empty _ _ _

theorem assertReads_place : AssertReads sampleWrites (placeArgs 1)
    ⟨"(located-in @A @B)", none, some 1, none⟩ premise.predicate where
  decoded := rfl
  parsed := by decide +kernel

/-- The handler after the place was asserted and retracted. -/
def withdrawnHandler : MemHandler Rat :=
  (blankHandler.after sampleWrites assertPlace).after sampleWrites retractPlace

theorem nodeAt_withdrawnHandler : withdrawnHandler.store.nodeAt ⟨placeId⟩ =
    some (assertNode ⟨"", none, some 1, none⟩ placeId premise.predicate).retract := by
  decide +kernel

/-- After a retraction the place is asserted again, and nobody believes it. -/
theorem assert_untruthful_place :
    ∃ calls : List (HandlerCall Unit),
      ¬ Along sampleWrites (AssertTruthful sampleWrites) blankHandler calls := by
  refine ⟨[assertPlace, retractPlace, assertPlace], ?_⟩
  rintro ⟨_, _, truthful, _⟩
  have founded := (assertTruthful_iff withdrawnHandler assertPlace).mp truthful
  have isId : assertId sampleWrites premise.predicate = placeId := by decide +kernel
  rcases founded _ rfl _ _ assertReads_place (by decide +kernel) with free | believes
  · rw [isId, nodeAt_withdrawnHandler] at free
    cases free
  · obtain ⟨id, node, stored, active, _⟩ := believes
    have isValue := (Hash.Map.mem_values_iff withdrawnHandler.store.backend.nodes node).mpr
      ⟨id, stored⟩
    have noneActive : ∀ node ∈ withdrawnHandler.store.backend.nodes.values,
        node.status ≠ .active := by
      decide +kernel
    exact noneActive node isValue active

/-- The first assertion of the place is truthful, and so is the second. -/
theorem asserts_truthful_iff_place :
    Along sampleWrites (AssertTruthful sampleWrites) blankHandler [assertPlace, assertPlace] := by
  refine (asserts_truthful_iff reachable_blankHandler _).mpr ⟨?_, ?_, trivial⟩
  · rintro args isCall params predicate reads _
    exact .inl (by rw [blankHandler, McpHandler.new, blank, (empty_data _ _ _).1])
  · rintro args isCall params predicate reads _
    cases isCall
    obtain ⟨rfl, rfl⟩ := assertReads_place.unique reads
    exact .inr ⟨⟨placeId⟩, assertNode ⟨"", none, some 1, none⟩ placeId premise.predicate,
      by decide +kernel, rfl, rfl⟩

/-- The place is asserted twice with full confidence: the second assertion adds an event that
names its node. -/
theorem repeat_enqueues_place :
    ∃ calls : List (HandlerCall Unit),
      ¬ Along sampleWrites (RepeatFrames sampleWrites) blankHandler calls := by
  refine ⟨[assertPlace, assertPlace], ?_⟩
  rintro ⟨_, frames, _⟩
  have inBand := (repeatFrames_iff (blankHandler.after sampleWrites assertPlace) assertPlace).mp
    frames
  have isBand := inBand _ rfl _ _ assertReads_place (by decide +kernel) (by decide +kernel)
  exact absurd isBand.1 (by decide +kernel)

/-- An assertion of the place with the default confidence. -/
def restatePlace : HandlerCall Unit :=
  sampleCall (.assert (.obj [("predicate", .str "(located-in @A @B)")]))

/-- The place is asserted again with the default confidence, which changes nothing. -/
theorem repeats_frame_iff_place :
    Along sampleWrites (RepeatFrames sampleWrites) blankHandler [assertPlace, restatePlace] := by
  refine (repeats_frame_iff reachable_blankHandler _).mpr ⟨?_, ?_, trivial⟩
  · rintro args isCall params predicate reads _ inUse
    exact absurd (by rw [blankHandler, McpHandler.new, blank, (empty_data _ _ _).1]) inUse
  · rintro args isCall params predicate reads _ _
    cases isCall
    obtain rfl : params = ⟨"(located-in @A @B)", none, none, none⟩ :=
      (Except.ok.inj reads.decoded).symm
    exact ⟨by decide +kernel, by decide +kernel⟩

end McpHandler

end Factum
