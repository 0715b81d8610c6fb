/-
This file is about what a session asks of the handler.

Only the call of a tool or a request for the resources reaches the handler. A handshake
settles the form of the answers after it, and every other message leaves the server as it
was. So a session that comes to its end has taken the handler through the calls that its
lines make, whatever the store and the numbers are.
-/

import Factum.Server

namespace Factum

open Stateful

/-! ### Responses -/

/-- A response to a request: of this version, under its id, with a result or an error. -/
structure Replies {D : Type} (req : JsonRpcRequest D) (response : JsonRpcResponse D) : Prop where
  version : response.jsonrpc = "2.0"
  sameId : response.id = req.id
  either : response.error.isSome = !response.result.isSome

section Replies

variable {D : Type} (req : JsonRpcRequest D)

theorem replies_success (result : Json D) : Replies req (.success req.id result) := ⟨rfl, rfl, rfl⟩

theorem replies_failure (error : JsonRpcError D) : Replies req (.failure req.id error) :=
  ⟨rfl, rfl, rfl⟩

end Replies

theorem McpHandler.run_append {D F B : Type} [F32 F] [StorageBackend F B]
    (out : WriteOutside D F) (handler : McpHandler F B) (calls later : List (HandlerCall D)) :
    handler.run out (calls ++ later) = (handler.run out calls).run out later :=
  List.foldl_append

namespace Server

open McpHandler

/-! ### The calls of a session -/

section Calls

variable {D F : Type} (out : ServerOutside D F)

/-- The tool that a request calls, if it calls one. -/
def callOf (req : RpcRequest D) : Option (ToolCall D) :=
  match Method.ofStr? req.method with
  | some .resourcesList => some (.read .listResources)
  | some .toolsCall => req.params.bind fun params =>
    toolCall (((params.get? "name").bind Json.asStr?).getD "")
      ((params.get? "arguments").getD .null)
  | some .resourcesRead => some (.read .readResource)
  | _ => none

/-- The tools that are called are those that are listed. -/
theorem toolCall_isSome_iff (name : String) (arguments : Json D) :
    (toolCall name arguments).isSome = true ↔
      name ∈ (toolDefinitions : List (ToolDefinition D)).map (·.name) := by
  have listed : ∀ tool : ToolDefinition D, tool ∈ toolDefinitions →
      tool.name ∈ (toolDefinitions : List (ToolDefinition D)).map (·.name) :=
    fun tool member => List.mem_map_of_mem member
  unfold toolCall
  split
  · exact iff_of_true rfl (listed factumQueryTool (by simp [toolDefinitions]))
  · exact iff_of_true rfl (listed factumLookupTool (by simp [toolDefinitions]))
  · exact iff_of_true rfl (listed factumInsertTool (by simp [toolDefinitions]))
  · exact iff_of_true rfl (listed factumInsertBatchTool (by simp [toolDefinitions]))
  · exact iff_of_true rfl (listed factumUpsertTool (by simp [toolDefinitions]))
  · exact iff_of_true rfl (listed factumAssertTool (by simp [toolDefinitions]))
  · exact iff_of_true rfl (listed factumSearchTool (by simp [toolDefinitions]))
  · exact iff_of_true rfl (listed factumRetractTool (by simp [toolDefinitions]))
  · exact iff_of_true rfl (listed factumReviewTool (by simp [toolDefinitions]))
  · refine iff_of_false Bool.false_ne_true fun member => ?_
    obtain ⟨tool, isTool, isName⟩ := List.mem_map.mp member
    simp only [toolDefinitions, List.mem_cons, List.not_mem_nil, or_false] at isTool
    rcases isTool with rfl | rfl | rfl | rfl | rfl | rfl | rfl | rfl | rfl
    all_goals
      have isName := isName.symm
      contradiction

/-- The form of answers after a request. -/
def formAfter (preferredForm : PreferredForm) (req : RpcRequest D) : PreferredForm :=
  match Method.ofStr? req.method with
  | some .handshake => negotiated req.toJsonRpcRequest
  | _ => preferredForm

/-- The call of the handler that a request makes. -/
def handlerCall (now : DateTime) (preferredForm : PreferredForm) (req : RpcRequest D) :
    Option (HandlerCall D) :=
  (callOf req).map (⟨now, preferredForm, req.toJsonRpcRequest, ·⟩)

/-- The calls of the handler in a session. -/
def callsOf : PreferredForm → List Arrival → List (HandlerCall D)
  | preferredForm, ⟨now, some line⟩ :: rest =>
    match readLine out line with
    | .request req =>
      (handlerCall now preferredForm req).toList ++ callsOf (formAfter preferredForm req) rest
    | _ => callsOf preferredForm rest
  | _, _ => []

/-- The form of answers after a session. -/
def formOf : PreferredForm → List Arrival → PreferredForm
  | preferredForm, ⟨_, some line⟩ :: rest =>
    match readLine out line with
    | .request req => formOf (formAfter preferredForm req) rest
    | _ => formOf preferredForm rest
  | preferredForm, _ => preferredForm

variable {out}

theorem formOf_cons (now : DateTime) (preferredForm : PreferredForm) (line : String)
    (rest : List Arrival) :
    formOf out preferredForm (⟨now, some line⟩ :: rest) =
      formOf out (formOf out preferredForm [⟨now, some line⟩]) rest := by
  simp only [formOf]
  cases readLine out line <;> rfl

theorem callsOf_cons (now : DateTime) (preferredForm : PreferredForm) (line : String)
    (rest : List Arrival) :
    callsOf out preferredForm (⟨now, some line⟩ :: rest) =
      callsOf out preferredForm [⟨now, some line⟩] ++
        callsOf out (formOf out preferredForm [⟨now, some line⟩]) rest := by
  simp only [callsOf, formOf]
  cases readLine out line with
  | nothing => rfl
  | invalid code message => rfl
  | request req => simp only [List.append_nil]

end Calls

/-! ### Requests -/

section Requests

variable {D F B : Type} [F32 F] [StorageBackend F B] (out : ServerOutside D F) (now : DateTime)
  (req : RpcRequest D)

/-- A request that calls no tool is replied to at once and changes the form of answers only. -/
theorem handle_of_no_call (noCall : callOf req = none) (server : Server F B) :
    ∃ response, Replies req.toJsonRpcRequest response ∧ handle out now req server =
      .ok response { server with preferredForm := formAfter server.preferredForm req } := by
  unfold callOf at noCall
  unfold handle formAfter
  cases method : Method.ofStr? req.method with
  | none => exact ⟨_, replies_failure _ _, rfl⟩
  | some known =>
    rw [method] at noCall
    cases known with
    | handshake => exact ⟨_, replies_success _ _, rfl⟩
    | ping => exact ⟨_, replies_success _ _, rfl⟩
    | toolsList => exact ⟨_, replies_success _ _, rfl⟩
    | resourcesTemplatesList => exact ⟨_, replies_success _ _, rfl⟩
    | resourcesList => cases noCall
    | resourcesRead => cases noCall
    | toolsCall =>
      dsimp only
      unfold handleCallTool
      cases hasParams : req.params with
      | none => exact ⟨_, replies_failure _ _, rfl⟩
      | some params =>
        rw [hasParams] at noCall
        have unnamed : toolCall (((params.get? "name").bind Json.asStr?).getD "")
            ((params.get? "arguments").getD .null) = none := noCall
        dsimp only
        rw [unnamed]
        exact ⟨_, replies_failure _ _, rfl⟩

/-- A request that calls a tool is the call of the handler and keeps the form of answers. -/
theorem handle_of_call {tool : ToolCall D} (isCall : callOf req = some tool) :
    (handle out now req : ServerM F B _) = onHandler out now req.toJsonRpcRequest tool ∧
      ∀ preferredForm, formAfter preferredForm req = preferredForm := by
  unfold callOf at isCall
  unfold handle formAfter
  cases method : Method.ofStr? req.method with
  | none =>
    rw [method] at isCall
    cases isCall
  | some known =>
    rw [method] at isCall
    cases known with
    | handshake => cases isCall
    | ping => cases isCall
    | toolsList => cases isCall
    | resourcesTemplatesList => cases isCall
    | resourcesList =>
      cases isCall
      exact ⟨rfl, fun _ => rfl⟩
    | resourcesRead =>
      cases isCall
      exact ⟨rfl, fun _ => rfl⟩
    | toolsCall =>
      refine ⟨?_, fun _ => rfl⟩
      dsimp only
      unfold handleCallTool
      cases hasParams : req.params with
      | none =>
        rw [hasParams] at isCall
        cases isCall
      | some params =>
        rw [hasParams] at isCall
        have named : toolCall (((params.get? "name").bind Json.asStr?).getD "")
            ((params.get? "arguments").getD .null) = some tool := isCall
        dsimp only
        rw [named]

variable {out now req}

/-- The handler and the form of answers after a request. -/
theorem handle_runs {server after : Server F B} {response : JsonRpcResponse D}
    (ran : handle out now req server = .ok response after) :
    after.handler = server.handler.run out.toWriteOutside
        (handlerCall now server.preferredForm req).toList ∧
      after.preferredForm = formAfter server.preferredForm req := by
  unfold handlerCall
  cases isCall : callOf req with
  | none =>
    obtain ⟨response', -, ran'⟩ := handle_of_no_call out now req isCall server
    cases ran.symm.trans ran'
    exact ⟨rfl, rfl⟩
  | some tool =>
    obtain ⟨isHandler, keeps⟩ := handle_of_call out now req (B := B) isCall
    rw [isHandler, onHandler] at ran
    cases called : McpHandler.handle out.toWriteOutside
        ⟨now, server.preferredForm, req.toJsonRpcRequest, tool⟩ server.handler with
    | error stop handler =>
      rw [called] at ran
      cases ran
    | ok reply handler =>
      rw [called] at ran
      cases ran
      exact ⟨(final_ok called).symm, (keeps _).symm⟩

/-- A request that calls a tool is answered with what the call is answered. -/
theorem answer_handle {server : Server F B} {call : HandlerCall D}
    (isCall : handlerCall now server.preferredForm req = some call) :
    answer (handle out now req) server = server.handler.response out.toWriteOutside call := by
  obtain ⟨tool, isTool, rfl⟩ := Option.map_eq_some_iff.mp isCall
  rw [(handle_of_call out now req isTool).1, response]
  unfold answer onHandler
  cases McpHandler.handle out.toWriteOutside
    ⟨now, server.preferredForm, req.toJsonRpcRequest, tool⟩ server.handler <;> rfl

end Requests

/-! ### Lines -/

section Lines

variable {D F B : Type} [F32 F] [StorageBackend F B] {out : ServerOutside D F}

/-- A line takes the handler through the call that it makes. -/
theorem serveLine_runs {now : DateTime} {line : String} {server after : Server F B}
    {written : Option String} (ran : serveLine out now line server = .ok written after) :
    after.handler = server.handler.run out.toWriteOutside
        (callsOf out server.preferredForm [⟨now, some line⟩]) ∧
      after.preferredForm = formOf out server.preferredForm [⟨now, some line⟩] := by
  unfold serveLine at ran
  simp only [callsOf, formOf]
  cases read : readLine out line with
  | nothing =>
    rw [read] at ran
    cases ran
    exact ⟨rfl, rfl⟩
  | invalid code message =>
    rw [read] at ran
    cases ran
    exact ⟨rfl, rfl⟩
  | request req =>
    rw [read] at ran
    obtain ⟨response, between, handled, written'⟩ := bind_eq_ok.mp ran
    cases written'
    dsimp only
    rw [List.append_nil]
    exact handle_runs handled

/-- A session takes the handler through the calls that its lines make. -/
theorem serveLines_runs {arrivals : List Arrival} :
    ∀ {server after : Server F B} {written : List String},
      serveLines out arrivals server = .ok written after →
      after.handler = server.handler.run out.toWriteOutside
          (callsOf out server.preferredForm arrivals) ∧
        after.preferredForm = formOf out server.preferredForm arrivals := by
  induction arrivals with
  | nil =>
    intro server after written ran
    cases ran
    exact ⟨rfl, rfl⟩
  | cons arrival rest inductionHypothesis =>
    obtain ⟨now, line⟩ := arrival
    intro server after written ran
    cases line with
    | none =>
      cases ran
      exact ⟨rfl, rfl⟩
    | some line =>
      obtain ⟨first, between, ranLine, ranRest⟩ := bind_eq_ok.mp ran
      obtain ⟨later, last, ranLater, isLast⟩ := bind_eq_ok.mp ranRest
      cases isLast
      obtain ⟨handler, form⟩ := serveLine_runs ranLine
      obtain ⟨handler', form'⟩ := inductionHypothesis ranLater
      rw [handler', form', handler, form, ← formOf_cons, callsOf_cons now _ line rest, run_append]
      exact ⟨rfl, rfl⟩

end Lines

end Server

end Factum
