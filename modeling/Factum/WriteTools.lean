/-
This file embeds the write surface of the MCP handler: the tools `factum_insert`,
`factum_insert_batch`, `factum_upsert`, `factum_assert`, `factum_retract` and
`factum_review`, over the store and the review queue.

A tool answers errors of the client and of the store with a response, like the read
surface, and what it wrote before the error stays written. Events are enqueued where the
code enqueues them, in the order of its steps. The preferred form of the answers changes
neither the store nor the queue, so it comes with each call.
-/

import Factum.Calibration
import Factum.Handler
import Factum.Review

namespace Factum

open Stateful

/-! ### Parameters of the tools -/

/-- Parameters for the `factum_insert` tool. -/
structure FactumInsertParams where
  node : String

/-- Parameters for the `factum_insert_batch` tool. -/
structure FactumInsertBatchParams where
  nodes : List String

/-- Parameters for the `factum_upsert` tool. -/
structure FactumUpsertParams where
  node : String
  entity : String
  predicate : String

/-- Parameters for the `factum_assert` tool. -/
structure FactumAssertParams (F : Type) where
  predicate : String
  by_ : Option String
  confidence : Option F
  note : Option String

/-- Parameters for the `factum_retract` tool. -/
structure FactumRetractParams where
  nodeId : String
  maxCascadeNodes : Option Nat

/-- What the write surface takes from the libraries besides. -/
structure WriteOutside (D F : Type) extends Outside D F where
  /-- The hash of a string by a new `DefaultHasher`. -/
  defaultHash : String → UInt64
  /-- `format!("{:.2}", v)` on an `f32`. -/
  f32Fixed : F → String
  /-- A score as a JSON value. -/
  scoreJson : F → Json D
  insertParams : Json D → Except String FactumInsertParams
  insertBatchParams : Json D → Except String FactumInsertBatchParams
  upsertParams : Json D → Except String FactumUpsertParams
  assertParams : Json D → Except String (FactumAssertParams F)
  retractParams : Json D → Except String FactumRetractParams

/-- A natural number in hexadecimal, with at least that many digits. -/
def hexPadded (width n : Nat) : String :=
  let digits := Nat.toDigits 16 n
  String.ofList (List.replicate (width - digits.length) '0' ++ digits)

/-- Generate a content-based node ID from canonical predicate text: twelve digits of its
hash. -/
def generateContentId (defaultHash : String → UInt64) (canonicalText : String) : String :=
  "auto-" ++ hexPadded 12 (defaultHash canonicalText &&& 0xFFFFFFFFFFFF).toNat

/-- Map a store error to the appropriate JSON-RPC error code. -/
def storeErrorToJsonrpc {D : Type} (error : StoreError) : JsonRpcError D :=
  match error with
  | .storage _ => ⟨-32603, error.display, none⟩
  | _ => .invalidParams error.display

/-- `value.as_u64()`. -/
def Json.asU64? {D : Type} : Json D → Option UInt64
  | .int n => if 0 ≤ n ∧ n < 2 ^ 64 then some (UInt64.ofNat n.toNat) else none
  | _ => none

/-- The action that a tool result reports. -/
def JsonRpcResponse.action? {D : Type} (response : JsonRpcResponse D) : Option String :=
  ((response.result.bind (·.get? "structuredContent")).bind (·.get? "action")).bind Json.asStr?

/-- MCP handler: the store and the events that need human decisions. -/
structure McpHandler (F B : Type) where
  store : FactumStore F B
  reviewQueue : ReviewQueue

/-- A method of the handler. -/
abbrev HandlerM (F B : Type) := EStateM (Stop StoreError) (McpHandler F B)

namespace McpHandler

open FactumStore

/-- Create a new handler with the given store. -/
def new {F B : Type} (store : FactumStore F B) : McpHandler F B := ⟨store, .new⟩

section Steps

variable {F B α : Type}

/-- Call the store. -/
def onStore (method : StoreM F B α) : HandlerM F B α := fun handler =>
  match method handler.store with
  | .ok value store => .ok value { handler with store := store }
  | .error stop store => .error stop { handler with store := store }

/-- Call the store and keep its error for the answer. -/
def attempt (method : StoreM F B α) : HandlerM F B (Except StoreError α) := fun handler =>
  match method handler.store with
  | .ok value store => .ok (.ok value) { handler with store := store }
  | .error (.fail error) store => .ok (.error error) { handler with store := store }
  | .error stop store => .error stop { handler with store := store }

/-- What the parser returns, with its error kept for the answer. -/
def readText (parsed : Except (Stop ParseError) α) : HandlerM F B (Except ParseError α) :=
  match parsed with
  | .ok value => return .ok value
  | .error (.fail error) => return .error error
  | .error .panic => throw .panic
  | .error .fuel => throw .fuel

/-- Enqueue a review event. -/
def enqueueEvent (eventType : ReviewEventType) (priority : ReviewPriority)
    (nodeIds : List String) (reason : String) (now : DateTime) : HandlerM F B Unit :=
  modify fun handler =>
    { handler with
      reviewQueue := handler.reviewQueue.enqueue eventType priority nodeIds reason now }

end Steps

section Tools

variable {D F B : Type} [F32 F] [StorageBackend F B] (out : WriteOutside D F)
  (req : JsonRpcRequest D)

/-- Reply with a store error. -/
def refuseStore (error : StoreError) : JsonRpcResponse D :=
  .failure req.id (storeErrorToJsonrpc error)

/-- An array of strings. -/
def textsJson (texts : List String) : Json D := .arr (texts.map .str)

/-! ### The insert tools -/

/-- The ID that is generated for a node whose ID is "auto". -/
def autoId (node : Node F) : Option String :=
  if node.id.asStr = "auto" then
    some (generateContentId out.defaultHash (canonicalPredicate out.host node.predicate))
  else none

/-- Execute the `factum_insert` tool. -/
def toolInsert (args : Json D) : HandlerM F B (JsonRpcResponse D) := do
  match out.insertParams args with
  | .error message => return refuse req message
  | .ok params =>
    match ← readText (Parser.parse out.host params.node) with
    | .error error => return refuse req ("Node parse error: " ++ error.display)
    | .ok [] => return refuse req "no nodes parsed"
    | .ok (node :: _) =>
      match autoId out node with
      | some id =>
        match ← attempt (insert { node with id := ⟨id⟩ }) with
        | .ok () =>
          return replyWith out.toOutside req (.object [
            ("status", .str "Node inserted successfully"),
            ("node_id", .str id),
            ("auto_generated", .bool true)])
        | .error error => return refuseStore req error
      | none =>
        match ← attempt (insert node) with
        | .ok () =>
          return replyWith out.toOutside req (.object [
            ("status", .str "Node inserted successfully")])
        | .error error => return refuseStore req error

/-- Parse every text of a batch, from the one with this number on. -/
def parseBatch : Nat → List String → List (Node F) → HandlerM F B (Except String (List (Node F)))
  | _, [], allNodes => return .ok allNodes
  | i, text :: rest, allNodes => do
    match ← readText (Parser.parse out.host text) with
    | .ok nodes => parseBatch (i + 1) rest (allNodes ++ nodes)
    | .error error =>
      return .error ("Node " ++ toString i ++ " parse error: " ++ error.display ++
        " (batch rejected)")

/-- Execute the `factum_insert_batch` tool. -/
def toolInsertBatch (args : Json D) : HandlerM F B (JsonRpcResponse D) := do
  match out.insertBatchParams args with
  | .error message => return refuse req message
  | .ok params =>
    match ← parseBatch out 0 params.nodes [] with
    | .error message => return refuse req message
    | .ok allNodes =>
      if allNodes.isEmpty then return refuse req "no nodes parsed from batch"
      match ← attempt (insertBatch allNodes) with
      | .ok () =>
        return replyWith out.toOutside req (.object [
          ("inserted", .int params.nodes.length),
          ("status", .str "all nodes inserted successfully")])
      | .error error => return refuseStore req error

/-! ### The upsert tool -/

/-- Whether a node is one that an upsert replaces: active, public, and with this head. -/
def isReplaced (params : FactumUpsertParams) (node : Node F) : Bool :=
  node.status == .active && checkPermission node .publicAccess &&
    predicateHeadStr node.predicate.head == params.predicate

/-- The entity that an upsert looks up. -/
def upsertEntity (params : FactumUpsertParams) : EntityId :=
  ⟨(stripPrefix? "@" params.entity).getD params.entity⟩

/-- Insert a node where there is none to replace. -/
def upsertNone (node : Node F) : HandlerM F B (JsonRpcResponse D) := do
  match ← attempt (insert node) with
  | .ok () =>
    return replyWith out.toOutside req (.object [
      ("action", .str "inserted"),
      ("retracted", .arr []),
      ("status", .str "no existing node found, inserted as new")])
  | .error error => return refuseStore req error

/-- Insert a node and then retract the one that it replaces. -/
def upsertOne (node old : Node F) : HandlerM F B (JsonRpcResponse D) := do
  match ← attempt (insert node) with
  | .ok () =>
    match ← attempt (retract old.id) with
    | .ok retracted =>
      return replyWith out.toOutside req (.object [
        ("action", .str "updated"),
        ("retracted", textsJson (retracted.map (·.asStr))),
        ("retracted_count", .int retracted.length),
        ("status", .str "old node retracted, new node inserted")])
    | .error error =>
      return replyWith out.toOutside req (.object [
        ("action", .str "partial"),
        ("warning", .str "new node inserted but old node retraction failed"),
        ("error", .str error.display),
        ("old_node_id", .str old.id.asStr)])
  | .error error => return refuseStore req error

/-- Refuse to guess which of several nodes to replace. -/
def upsertMany (candidates : List (Node F)) : HandlerM F B (JsonRpcResponse D) := do
  let nodeIds := candidates.map (·.id.asStr)
  enqueueEvent .ambiguousArbitration .normal nodeIds
    ("Upsert found " ++ toString candidates.length ++ " matching nodes with conflicting " ++
      "values. System refused to guess. Retract specific nodes manually or narrow the predicate.")
    out.now
  return replyWith out.toOutside req (.object [
    ("action", .str "ambiguous"),
    ("matching_nodes", textsJson nodeIds),
    ("count", .int candidates.length),
    ("status", .str ("multiple matching nodes found — refusing to guess. Retract specific " ++
      "nodes manually or narrow the predicate."))])

/-- Execute the `factum_upsert` tool. -/
def toolUpsert (args : Json D) : HandlerM F B (JsonRpcResponse D) := do
  match out.upsertParams args with
  | .error message => return refuse req message
  | .ok params =>
    match ← readText (Parser.parse out.host params.node) with
    | .error error => return refuse req ("Node parse error: " ++ error.display)
    | .ok [] => return refuse req "no nodes parsed"
    | .ok (newNode :: _) =>
      let found ← onStore (lookupByEntity (upsertEntity params))
      match found.filter (isReplaced params) with
      | [] => upsertNone out req newNode
      | [old] => upsertOne out req newNode old
      | candidates => upsertMany out req candidates

/-! ### The assert tool -/

/-- Who asserts. -/
def assertBy (params : FactumAssertParams F) : String := params.by_.getD "system"

/-- The provenance of an asserted fact. -/
def assertProvenance (params : FactumAssertParams F) : Provenance := .asserted ⟨assertBy params⟩

/-- The confidence of an asserted fact: the one given, or the default of its provenance. -/
def assertConfidence (params : FactumAssertParams F) : Confidence F :=
  match params.confidence with
  | some conf => ⟨conf⟩
  | none => defaultConfidenceForProvenance (assertProvenance params)

/-- The node of an asserted fact. -/
def assertNode (params : FactumAssertParams F) (nodeId : String) (predicate : Predicate) :
    Node F :=
  { Node.new nodeId predicate with
    provenance := assertProvenance params
    confidence := assertConfidence params
    note := params.note }

/-- Enqueue an event for a confidence outside its band. -/
def checkBand (params : FactumAssertParams F) (nodeId : String) : HandlerM F B Unit :=
  match checkConfidenceBand out.f32Fixed (assertProvenance params) (assertConfidence params) with
  | .ok () => return
  | .error bandWarning =>
    enqueueEvent .bandClippingExceeded .normal [nodeId]
      ("Confidence " ++ out.host.f32Display (assertConfidence params).value ++
        " for provenance " ++ (assertProvenance params).debug out.host.strDebug ++
        " exceeds band. " ++ bandWarning)
      out.now

/-- The principal of the node that has the ID already. -/
def existingPrincipal (existing : Option (Node F)) : String :=
  match existing.map Node.provenance with
  | some (.asserted by_) => by_.asStr
  | some (.extracted _ _ model) => model.name
  | _ => "unknown"

/-- The answer to an assertion whose ID is in use. -/
def assertExisting (by_ existing nodeId canon : String) : JsonRpcResponse D :=
  if existing = by_ then
    replyWith out.toOutside req (.object [
      ("action", .str "duplicate"),
      ("node_id", .str nodeId),
      ("predicate", .str canon),
      ("status", .str "fact already asserted by the same principal (no-op)")])
  else
    replyWith out.toOutside req (.object [
      ("action", .str "corroborated"),
      ("node_id", .str nodeId),
      ("predicate", .str canon),
      ("status", .str "fact already exists — your assertion is recorded as corroboration"),
      ("corroborated_by", .str existing),
      ("your_principal", .str by_),
      ("hint", .str ("use factum_insert with a custom node ID to add your own provenance, or " ++
        "use WeightedVote policy in queries to leverage multiple principals"))])

/-- Insert the node of an asserted fact. That its ID is in use is a success. -/
def insertAsserted (params : FactumAssertParams F) (predicate : Predicate)
    (nodeId canon : String) : HandlerM F B (JsonRpcResponse D) := do
  match ← attempt (insert (assertNode params nodeId predicate)) with
  | .ok () =>
    return replyWith out.toOutside req (.object [
      ("action", .str "asserted"),
      ("node_id", .str nodeId),
      ("predicate", .str canon),
      ("status", .str "fact asserted with auto-generated ID")])
  | .error (.alreadyExists _) =>
    let existing ← onStore (getById ⟨nodeId⟩)
    return assertExisting out req (assertBy params) (existingPrincipal existing) nodeId canon
  | .error error => return refuseStore req error

/-- Execute the `factum_assert` tool. -/
def toolAssert (args : Json D) : HandlerM F B (JsonRpcResponse D) := do
  match out.assertParams args with
  | .error message => return refuse req message
  | .ok params =>
    match ← readText (Parser.parsePredicate out.host params.predicate) with
    | .error error => return refuse req ("Predicate parse error: " ++ error.display)
    | .ok predicate =>
      let canon := canonicalPredicate out.host predicate
      let nodeId := generateContentId out.defaultHash canon
      checkBand out params nodeId
      insertAsserted out req params predicate nodeId canon

/-! ### The retract tool -/

/-- Enqueue an event for a cascade that was cut. -/
def reportCut (nodeId : String) (result : RetractResult) : HandlerM F B Unit :=
  if result.truncated then
    enqueueEvent .cascadeTruncated .high [nodeId]
      ("Cascade retraction truncated at " ++ toString result.retracted.length ++
        " nodes (depth " ++ toString result.depthReached ++ "). Knowledge base may be in a " ++
        "partially-retracted state. Review and decide whether to continue retraction or restore.")
      out.now
  else return

/-- Execute the `factum_retract` tool. -/
def toolRetract (args : Json D) : HandlerM F B (JsonRpcResponse D) := do
  match out.retractParams args with
  | .error message => return refuse req message
  | .ok params =>
    let maxNodes := params.maxCascadeNodes.getD 100
    match ← attempt (retractWithLimit ⟨params.nodeId⟩ maxNodes) with
    | .ok result =>
      reportCut out params.nodeId result
      return replyWith out.toOutside req (.object [
        ("retracted", textsJson (result.retracted.map (·.asStr))),
        ("count", .int result.retracted.length),
        ("truncated", .bool result.truncated),
        ("depth_reached", .int result.depthReached)])
    | .error error => return refuseStore req error

/-! ### The review tool -/

/-- The fields of an event that every listing has. -/
def eventFields (event : ReviewEvent) : List (String × Json D) := [
  ("id", .int event.id.toNat),
  ("event_type", .str event.eventType.asStr),
  ("priority", .str event.priority.asStr),
  ("node_ids", textsJson event.nodeIds),
  ("reason", .str event.reason),
  ("timestamp", .int event.timestamp)]

/-- An event with its status. -/
def eventJson (event : ReviewEvent) : Json D :=
  .object (eventFields event ++ [("status", .str event.status.asStr)])

/-- Retract the nodes of a rejected event, one after the other. -/
def retractEach : List String → List String → List String →
    HandlerM F B (List String × List String)
  | [], retractedNodes, errors => return (retractedNodes, errors)
  | nodeId :: rest, retractedNodes, errors => do
    match ← attempt (retract ⟨nodeId⟩) with
    | .ok retracted => retractEach rest (retractedNodes ++ retracted.map (·.asStr)) errors
    | .error error => retractEach rest retractedNodes (errors ++ [nodeId ++ ": " ++ error.display])

/-- A node in the detail of an event. -/
def detailJson (nodeId : String) (node : Node F) : Json D :=
  .object [
    ("node_id", .str nodeId),
    ("canonical", .str (canonical out.host node)),
    ("status", .str node.status.debug),
    ("confidence", out.scoreJson node.confidence.value),
    ("provenance", .str (node.provenance.debug out.host.strDebug))]

/-- The details of the nodes of an event that are stored. -/
def nodeDetails : List String → HandlerM F B (List (Json D))
  | [] => return []
  | nodeId :: rest => do
    let found ← onStore (getById ⟨nodeId⟩)
    let details ← nodeDetails rest
    return (found.map (detailJson out nodeId)).toList ++ details

/-- Decide an event: the queue after it, or the reason for which it cannot be decided. -/
def decideEvent (decision : ReviewQueue → UInt64 → Except String ReviewQueue) (eventId : UInt64) :
    HandlerM F B (Except String Unit) := do
  match decision (← get).reviewQueue eventId with
  | .error message => return .error message
  | .ok queue =>
    modify fun handler => { handler with reviewQueue := queue }
    return .ok ()

/-- The ID of the event that a mode is about. -/
def eventIdOf (args : Json D) : Option UInt64 := (args.get? "event_id").bind Json.asU64?

/-- List the pending events. -/
def reviewPending : HandlerM F B (JsonRpcResponse D) := do
  let pending := (← get).reviewQueue.listPending
  return replyWith out.toOutside req (.object [
    ("pending", .arr (pending.map fun event => .object (eventFields event))),
    ("count", .int pending.length)])

/-- List all events. -/
def reviewAll : HandlerM F B (JsonRpcResponse D) := do
  let queue := (← get).reviewQueue
  return replyWith out.toOutside req (.object [
    ("events", .arr (queue.listAll.map eventJson)),
    ("count", .int queue.listAll.length),
    ("pending_count", .int queue.pendingCount)])

/-- Approve an event. -/
def reviewApprove (args : Json D) : HandlerM F B (JsonRpcResponse D) := do
  match eventIdOf args with
  | none => return refuse req "event_id is required for approve mode"
  | some eventId =>
    match ← decideEvent ReviewQueue.approve eventId with
    | .ok () =>
      return replyWith out.toOutside req (.object [
        ("action", .str "approved"),
        ("event_id", .int eventId.toNat),
        ("status", .str "event approved — fact is allowed to stand")])
    | .error message => return refuse req message

/-- Reject an event and retract its nodes. -/
def reviewReject (args : Json D) : HandlerM F B (JsonRpcResponse D) := do
  match eventIdOf args with
  | none => return refuse req "event_id is required for reject mode"
  | some eventId =>
    match ← decideEvent ReviewQueue.reject eventId with
    | .error message => return refuse req message
    | .ok () =>
      match (← get).reviewQueue.get eventId with
      | none => return refuse req ("event " ++ toString eventId ++ " not found")
      | some event =>
        let (retractedNodes, errors) ← retractEach event.nodeIds [] []
        return replyWith out.toOutside req (.object [
          ("action", .str "rejected"),
          ("event_id", .int eventId.toNat),
          ("retracted_nodes", textsJson retractedNodes),
          ("retracted_count", .int retractedNodes.length),
          ("errors", textsJson errors),
          ("status", .str "event rejected — associated nodes retracted")])

/-- Get full detail of an event. -/
def reviewDetail (args : Json D) : HandlerM F B (JsonRpcResponse D) := do
  match eventIdOf args with
  | none => return refuse req "event_id is required for get_detail mode"
  | some eventId =>
    match (← get).reviewQueue.get eventId with
    | some event =>
      let details ← nodeDetails out event.nodeIds
      return replyWith out.toOutside req (.object [
        ("event", eventJson event),
        ("node_details", .arr details)])
    | none => return refuse req ("event " ++ toString eventId ++ " not found")

/-- Execute the `factum_review` tool. -/
def toolReview (args : Json D) : HandlerM F B (JsonRpcResponse D) :=
  match ((args.get? "mode").bind Json.asStr?).getD "list_pending" with
  | "list_pending" => reviewPending out req
  | "list_all" => reviewAll out req
  | "approve" => reviewApprove out req args
  | "reject" => reviewReject out req args
  | "get_detail" => reviewDetail out req args
  | mode =>
    return refuse req ("unknown mode '" ++ mode ++
      "'. Valid modes: list_pending, list_all, approve, reject, get_detail")

/-! ### Calls -/

/-- A call of the handler: one of the read surface, or a write tool with any JSON value as its
arguments. The methods that answer from constants are left out. -/
inductive ToolCall (D : Type) where
  | read (call : ReadCall D)
  | insert (args : Json D)
  | insertBatch (args : Json D)
  | upsert (args : Json D)
  | assert (args : Json D)
  | retract (args : Json D)
  | review (args : Json D)

end Tools

/-- A request with the call that it asks for, the time of the call, and the form of answers
that was negotiated before. -/
structure HandlerCall (D : Type) where
  now : DateTime
  preferredForm : PreferredForm
  req : JsonRpcRequest D
  tool : ToolCall D

section Calls

variable {D F B : Type} [F32 F] [StorageBackend F B] (out : WriteOutside D F)

/-- Process a request. -/
def handle (call : HandlerCall D) : HandlerM F B (JsonRpcResponse D) :=
  let out : WriteOutside D F := { out with now := call.now }
  match call.tool with
  | .read reading => onStore (serve out.toOutside call.preferredForm call.req reading)
  | .insert args => toolInsert out call.req args
  | .insertBatch args => toolInsertBatch out call.req args
  | .upsert args => toolUpsert out call.req args
  | .assert args => toolAssert out call.req args
  | .retract args => toolRetract out call.req args
  | .review args => toolReview out call.req args

/-- The handler after a call, which may have failed. -/
def after (handler : McpHandler F B) (call : HandlerCall D) : McpHandler F B :=
  final (handle out call) handler

/-- What a call is answered. -/
def response (handler : McpHandler F B) (call : HandlerCall D) :
    Except (Stop StoreError) (JsonRpcResponse D) :=
  answer (handle out call) handler

/-- The handler after a run. -/
def run (handler : McpHandler F B) (calls : List (HandlerCall D)) : McpHandler F B :=
  calls.foldl (after out) handler

end Calls

end McpHandler

end Factum
