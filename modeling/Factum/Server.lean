/-
This file embeds the server: the dispatch of JSON-RPC requests to the handler, the
handshake, and the loop of the stdio transport.

The loop reads one message from each line. A blank line and a notification get no answer, a
line that is no request is refused under a null id, and every other line is answered by the
handler. What arrives is a list of lines, each with the time at which it is served; a line
that cannot be read ends the loop, as the end of the input does.
-/

import Factum.Sequiv
import Factum.WriteTools

namespace Factum

open Stateful

/-! ### Requests -/

/-- A JSON-RPC 2.0 request as it arrives, with its version and its method. -/
structure RpcRequest (D : Type) extends JsonRpcRequest D where
  jsonrpc : String
  method : String

section Requests

variable {D : Type}

/-- A field that is absent or null is none. -/
def optionalField : Option (Json D) → Option (Json D)
  | some .null => none
  | field => field

/-- A request from the values of its fields. -/
def RpcRequest.ofFields (jsonrpc id method : Json D) (params : Option (Json D)) :
    Option (RpcRequest D) := do
  let jsonrpc ← jsonrpc.asStr?
  let method ← method.asStr?
  return ⟨⟨id, optionalField params⟩, jsonrpc, method⟩

/-- `serde_json::from_value::<JsonRpcRequest>`: a request is read from an object with its
fields, or from an array with their values in order. -/
def RpcRequest.ofJson? (value : Json D) : Option (RpcRequest D) :=
  match value with
  | .obj _ => do
    let jsonrpc ← value.get? "jsonrpc"
    let id ← value.get? "id"
    let method ← value.get? "method"
    RpcRequest.ofFields jsonrpc id method (value.get? "params")
  | .arr [jsonrpc, id, method] => RpcRequest.ofFields jsonrpc id method none
  | .arr [jsonrpc, id, method, params] => RpcRequest.ofFields jsonrpc id method (some params)
  | _ => none

/-- A notification: a message of this version with a method and no id. -/
def isNotification (value : Json D) : Bool :=
  (value.get? "jsonrpc").bind Json.asStr? == some "2.0" &&
    ((value.get? "method").bind Json.asStr?).isSome && (value.get? "id").isNone

/-- An id of a request: a string, or an integer of 64 bits. -/
def isRequestId : Json D → Bool
  | .str _ => true
  | .int n => -2 ^ 63 ≤ n && n < 2 ^ 64
  | _ => false

/-- `JsonRpcError::method_not_found()`. -/
def JsonRpcError.methodNotFound : JsonRpcError D := ⟨-32601, "Method not found", none⟩

/-- The JSON of an error. -/
def JsonRpcError.toJson (error : JsonRpcError D) : Json D :=
  .obj ([("code", .int error.code), ("message", .str error.message)] ++
    (error.data.map (("data", ·))).toList)

/-- The JSON of a response. -/
def JsonRpcResponse.toJson (response : JsonRpcResponse D) : Json D :=
  .obj ([("jsonrpc", .str response.jsonrpc), ("id", response.id)] ++
    (response.result.map (("result", ·))).toList ++
    (response.error.map fun error => ("error", error.toJson)).toList)

end Requests

/-! ### Tool definitions -/

/-- Tool definition. -/
structure ToolDefinition (D : Type) where
  name : String
  description : String
  inputSchema : Json D

section Definitions

variable {D : Type}

/-- The JSON of the definition of a tool. -/
def ToolDefinition.toJson (tool : ToolDefinition D) : Json D :=
  .object [
    ("name", .str tool.name),
    ("description", .str tool.description),
    ("inputSchema", tool.inputSchema)]

/-- The schema of an object with these properties. -/
def objectSchema (properties : List (String × Json D)) (required : List String) : Json D :=
  .object [
    ("type", .str "object"),
    ("properties", .object properties),
    ("required", .arr (required.map .str))]

/-- The schema of a property: its type, what else it is, and its description. -/
def property (type : String) (more : List (String × Json D)) (description : String) : Json D :=
  .object (("type", .str type) :: more ++ [("description", .str description)])

/-- The values that a text may have. -/
def oneOf (values : List String) : String × Json D := ("enum", .arr (values.map .str))

/-- The schema of a threshold for confidences. -/
def minConfidenceSchema : Json D :=
  property "number" [("minimum", .int 0), ("maximum", .int 1), ("default", .int 0)]
    "Minimum confidence threshold"

/-- The definition of the query tool. -/
def factumQueryTool : ToolDefinition D where
  name := "factum_query"
  description := "Query the Factum knowledge graph using S-expression syntax. Returns " ++
    "matching nodes with their provenance and confidence."
  inputSchema := objectSchema [
    ("query", property "string" []
      "Factum-F S-expression query, e.g. (shareholder-major @ACME-CORP ?p)"),
    ("policy", property "string"
      [oneOf ["latest", "authority", "unanimous", "weighted"], ("default", .str "latest")]
      ("Conflict resolution policy. 'weighted' uses agent_weights for majority vote " ++
        "(multi-agent).")),
    ("as_of", property "string" [("format", .str "date-time")]
      "Historical query: return knowledge valid at this time"),
    ("min_confidence", minConfidenceSchema),
    ("agent_weights", .object [
      ("type", .str "object"),
      ("description", .str ("Agent weights for 'weighted' policy. Keys are agent/principal " ++
        "names, values are 0.0–1.0. Agents not listed default to 0.5.")),
      ("additionalProperties", .object [("type", .str "number")])])]
    ["query"]

/-- The definition of the insertion tool. -/
def factumInsertTool : ToolDefinition D where
  name := "factum_insert"
  description := "Insert a new knowledge node into the Factum graph. The node must be in " ++
    "valid Factum-F S-expression format. Use \"auto\" as the node ID to auto-generate a " ++
    "content-based ID (same behavior as factum_assert)."
  inputSchema := objectSchema [
    ("node", property "string" []
      ("Factum-F node definition, e.g. (node n001 :pred (instance-of @X organization)). Use " ++
        "(node auto :pred ...) to auto-generate the node ID."))]
    ["node"]

/-- The definition of the retraction tool. -/
def factumRetractTool : ToolDefinition D where
  name := "factum_retract"
  description := "Retract a node from the Factum graph. Retraction is a soft delete — the " ++
    "node is marked as retracted but not removed, preserving audit history. Derived nodes " ++
    "depending on the retracted node are cascade-retracted. The cascade is limited to a " ++
    "configurable number of nodes to prevent explosion in large knowledge bases."
  inputSchema := objectSchema [
    ("node_id", property "string" [] "ID of the node to retract"),
    ("max_cascade_nodes", property "integer" [("minimum", .int 1), ("default", .int 100)]
      ("Maximum number of nodes to retract in the cascade (including root). If exceeded, the " ++
        "cascade is truncated and 'truncated: true' is returned."))]
    ["node_id"]

/-- The definition of the lookup tool. -/
def factumLookupTool : ToolDefinition D where
  name := "factum_lookup"
  description := "Look up all knowledge about a specific entity. Returns all active nodes " ++
    "where the entity appears in the predicate arguments. Uses exact entity name matching " ++
    "(e.g. \"ACME-CORP\" matches only @ACME-CORP, not @ACME-SUBSIDIARY). For " ++
    "partial/substring matching, use factum_search with mode=\"keyword\" instead."
  inputSchema := objectSchema [
    ("entity", property "string" [] "Entity name (without @ prefix), e.g. \"ACME-CORP\""),
    ("min_confidence", minConfidenceSchema)]
    ["entity"]

/-- The definition of the tool that inserts a batch. -/
def factumInsertBatchTool : ToolDefinition D where
  name := "factum_insert_batch"
  description := "Insert multiple knowledge nodes atomically. If any node fails parsing or " ++
    "verification, the entire batch is rejected (no partial insert). More efficient than " ++
    "calling factum_insert repeatedly."
  inputSchema := objectSchema [
    ("nodes", property "array"
      [("items", .object [("type", .str "string")]), ("minItems", .int 1), ("maxItems", .int 100)]
      "Array of Factum-F node definitions")]
    ["nodes"]

/-- The definition of the upsert tool. -/
def factumUpsertTool : ToolDefinition D where
  name := "factum_upsert"
  description := "Update or insert a knowledge node. Finds active nodes matching the given " ++
    "entity + predicate, retracts them, then inserts the new node. If multiple matching " ++
    "nodes exist, returns Ambiguous (refuses to guess). If no match, performs a plain insert."
  inputSchema := objectSchema [
    ("node", property "string" []
      ("Factum-F node definition for the new node, e.g. (node n010 :pred (version " ++
        "@FACTUM-PROJECT \"0.1.2\"))")),
    ("entity", property "string" []
      "Entity name to find existing nodes (without @ prefix), e.g. \"FACTUM-PROJECT\""),
    ("predicate", property "string" [] "Predicate head to match, e.g. \"version\"")]
    ["node", "entity", "predicate"]

/-- The definition of the search tool. -/
def factumSearchTool : ToolDefinition D where
  name := "factum_search"
  description := "Search the knowledge graph by keyword, list all predicates, or get " ++
    "statistics. Keyword mode finds nodes whose canonical text contains the keyword " ++
    "(case-insensitive). Predicates mode lists all distinct predicate heads with counts. " ++
    "Stats mode returns total node count and status breakdown."
  inputSchema := objectSchema [
    ("mode", property "string" [oneOf ["keyword", "predicates", "stats"]]
      ("Search mode: keyword (substring search), predicates (list all predicate heads), stats " ++
        "(counts summary)")),
    ("keyword", property "string" []
      "Keyword for substring search (required when mode=\"keyword\")"),
    ("limit", property "integer"
      [("minimum", .int 1), ("maximum", .int 200), ("default", .int 50)]
      "Maximum results (keyword mode only)")]
    ["mode"]

/-- The definition of the assertion tool. -/
def factumAssertTool : ToolDefinition D where
  name := "factum_assert"
  description := "Assert a fact with minimal syntax. Provide only the predicate " ++
    "S-expression — node ID is auto-generated from content hash, provenance defaults to " ++
    "Asserted. For full control (validity, deps, custom permissions), use factum_insert."
  inputSchema := objectSchema [
    ("predicate", property "string" []
      "Predicate S-expression, e.g. (version @FACTUM-PROJECT \"0.1.3\")"),
    ("by", property "string" [("default", .str "system")] "Who is asserting this fact"),
    ("confidence", property "number" [("minimum", .int 0), ("maximum", .int 1)]
      ("Confidence level. If omitted, a provenance-based default is used (Asserted=0.60, " ++
        "Extracted=0.80, etc.). See docs/confidence-calibration-research.md.")),
    ("note", property "string" []
      ("Optional human-readable note for context (e.g. \"v6 plan\", \"extracted from page " ++
        "3\"). Does not affect content hash or equality."))]
    ["predicate"]

/-- The definition of the review tool. -/
def factumReviewTool : ToolDefinition D where
  name := "factum_review"
  description := "Review queue for agent knowledge governance. Lists events that need human " ++
    "decisions (ambiguous arbitration, confidence band violations, truncated cascades). " ++
    "Modes: list_pending (default), list_all, approve, reject, get_detail. Reject mode " ++
    "retracts associated nodes and cascades to derived nodes."
  inputSchema := objectSchema [
    ("mode", property "string"
      [oneOf ["list_pending", "list_all", "approve", "reject", "get_detail"],
        ("default", .str "list_pending")]
      "Review action mode"),
    ("event_id", property "integer" []
      "Event ID (required for approve, reject, get_detail modes)")]
    ["mode"]

/-- Get all tool definitions. -/
def toolDefinitions : List (ToolDefinition D) := [
  factumQueryTool,
  factumInsertTool,
  factumRetractTool,
  factumLookupTool,
  factumInsertBatchTool,
  factumUpsertTool,
  factumSearchTool,
  factumAssertTool,
  factumReviewTool]

end Definitions

/-! ### Dispatch -/

/-- The methods of the server. -/
inductive Method where
  | handshake
  | ping
  | toolsList
  | resourcesList
  | resourcesTemplatesList
  | toolsCall
  | resourcesRead
deriving DecidableEq, Repr

/-- The method of a name. -/
def Method.ofStr? : String → Option Method
  | "initialize" => some .handshake
  | "ping" => some .ping
  | "tools/list" => some .toolsList
  | "resources/list" => some .resourcesList
  | "resources/templates/list" => some .resourcesTemplatesList
  | "tools/call" => some .toolsCall
  | "resources/read" => some .resourcesRead
  | _ => none

/-- What the server takes from the libraries besides. -/
structure ServerOutside (D F : Type) extends WriteOutside D F where
  /-- `serde_json::from_str::<Value>`. -/
  jsonFromStr : String → Except String (Json D)

/-- The server: a handler with the form of answers that was negotiated. -/
structure Server (F B : Type) where
  handler : McpHandler F B
  preferredForm : PreferredForm

/-- A method of the server. -/
abbrev ServerM (F B : Type) := EStateM (Stop StoreError) (Server F B)

namespace Server

/-- A server with the given store, before any handshake. -/
def new {F B : Type} (store : FactumStore F B) : Server F B := ⟨.new store, .compact⟩

section Methods

variable {D F B : Type} [F32 F] [StorageBackend F B] (out : ServerOutside D F) (now : DateTime)

/-- Call the handler. -/
def onHandler (req : JsonRpcRequest D) (tool : McpHandler.ToolCall D) :
    ServerM F B (JsonRpcResponse D) := fun server =>
  match McpHandler.handle out.toWriteOutside ⟨now, server.preferredForm, req, tool⟩
    server.handler with
  | .ok response handler => .ok response { server with handler := handler }
  | .error stop handler => .error stop { server with handler := handler }

/-- What the client says about its knowledge of Factum. -/
def factumCaps (req : JsonRpcRequest D) : Option (Json D) :=
  (req.params.bind (·.get? "capabilities")).bind (·.get? "factum")

/-- The form of answers after a handshake: readable texts for a client that does not know
Factum, and for the others the form that they ask for, or the compact one. -/
def negotiated (req : JsonRpcRequest D) : PreferredForm :=
  match factumCaps req with
  | none => .canonical
  | some caps =>
    match (caps.get? "preferred_form").bind Json.asStr? with
    | some "canonical" => .canonical
    | some "compact" => .compact
    | _ => .compact

/-- An entry of the morpheme table. -/
def morphemeEntry (definition : MorphemeDef) : Json D :=
  .object [
    ("id", .int definition.id.index.toNat),
    ("name", .str definition.name),
    ("kind", .str definition.kind.debug)]

/-- The result of a handshake; only a client that knows Factum gets the morpheme table. -/
def initializeResult (registry : MorphemeRegistry) (req : JsonRpcRequest D) : Json D :=
  .object ([
    ("protocolVersion", .str "2025-06-18"),
    ("capabilities", .object [
      ("tools", .object [("listChanged", .bool true)]),
      ("resources", .object [])]),
    ("serverInfo", .object [("name", .str "factum-mcp"), ("version", .str "0.1.3")])] ++
    if (factumCaps req).isSome then
      [("factum_morphemes", .arr (registry.byId.map morphemeEntry))]
    else [])

/-- Handle the initialize handshake. -/
def handleInitialize (req : JsonRpcRequest D) : ServerM F B (JsonRpcResponse D) := do
  modify fun server => { server with preferredForm := negotiated req }
  return .success req.id (initializeResult (← get).handler.store.registry req)

/-- The templates of resource URIs. -/
def resourceTemplates : Json D :=
  .object [("resourceTemplates", .arr [.object [
    ("uriTemplate", .str "factum://nodes/\x7bid\x7d"),
    ("name", .str "Factum node"),
    ("description", .str "Read an active public knowledge node as canonical Factum text"),
    ("mimeType", .str "text/plain")]])]

/-- The call of a tool by its name. -/
def toolCall (name : String) (arguments : Json D) : Option (McpHandler.ToolCall D) :=
  match name with
  | "factum_query" => some (.read (.query arguments))
  | "factum_lookup" => some (.read (.lookup arguments))
  | "factum_insert" => some (.insert arguments)
  | "factum_insert_batch" => some (.insertBatch arguments)
  | "factum_upsert" => some (.upsert arguments)
  | "factum_assert" => some (.assert arguments)
  | "factum_search" => some (.read (.search arguments))
  | "factum_retract" => some (.retract arguments)
  | "factum_review" => some (.review arguments)
  | _ => none

/-- Handle `tools/call`: execute a tool. -/
def handleCallTool (req : JsonRpcRequest D) : ServerM F B (JsonRpcResponse D) :=
  match req.params with
  | none => return McpHandler.refuse req "missing params"
  | some params =>
    let toolName := ((params.get? "name").bind Json.asStr?).getD ""
    let arguments := (params.get? "arguments").getD .null
    match toolCall toolName arguments with
    | some tool => onHandler out now req tool
    | none => return McpHandler.refuse req ("unknown tool: " ++ toolName)

/-- Process a JSON-RPC request. -/
def handle (req : RpcRequest D) : ServerM F B (JsonRpcResponse D) :=
  match Method.ofStr? req.method with
  | some .handshake => handleInitialize req.toJsonRpcRequest
  | some .ping => return .success req.id (.object [])
  | some .toolsList =>
    return .success req.id (.object [("tools", .arr (toolDefinitions.map (·.toJson)))])
  | some .resourcesList => onHandler out now req.toJsonRpcRequest (.read .listResources)
  | some .resourcesTemplatesList => return .success req.id resourceTemplates
  | some .toolsCall => handleCallTool out now req.toJsonRpcRequest
  | some .resourcesRead => onHandler out now req.toJsonRpcRequest (.read .readResource)
  | none => return .failure req.id .methodNotFound

end Methods

/-! ### The stdio transport -/

section Stdio

variable {D F B : Type} [F32 F] [StorageBackend F B] (out : ServerOutside D F)

/-- What a line asks of the server. -/
inductive Message (D : Type) where
  /-- A blank line or a notification. -/
  | nothing
  /-- A line that is no request, with the code and the text of the error. -/
  | invalid (code : Int) (message : String)
  | request (req : RpcRequest D)

/-- What a JSON value asks of the server. -/
def messageOf (value : Json D) : Message D :=
  if isNotification value then .nothing
  else
    match RpcRequest.ofJson? value with
    | some req =>
      if req.jsonrpc == "2.0" && isRequestId req.id then .request req
      else .invalid (-32600) "Invalid Request"
    | none => .invalid (-32600) "Invalid Request"

/-- Read a line. -/
def readLine (line : String) : Message D :=
  let trimmed := trim line.toList
  if trimmed.isEmpty then .nothing
  else
    match out.jsonFromStr (String.ofList trimmed) with
    | .error _ => .invalid (-32700) "Parse error"
    | .ok value => messageOf value

/-- The refusal of a line that is no request. -/
def refusalJson (code : Int) (message : String) : Json D :=
  .object [
    ("jsonrpc", .str "2.0"),
    ("id", .null),
    ("error", .object [("code", .int code), ("message", .str message)])]

/-- Serve a line: what is written for it, if anything is. -/
def serveLine (now : DateTime) (line : String) : ServerM F B (Option String) :=
  match readLine out line with
  | .nothing => return none
  | .invalid code message => return some ((refusalJson code message).render out.doubleText)
  | .request req => do
    let response ← handle out now req
    return some (response.toJson.render out.doubleText)

/-- A line that arrives, or none where it cannot be read, with the time. -/
structure Arrival where
  now : DateTime
  line : Option String

/-- The loop over the lines that arrive, with what is written. -/
def serveLines : List Arrival → ServerM F B (List String)
  | [] => return []
  | ⟨now, some line⟩ :: rest => do
    let written ← serveLine out now line
    let later ← serveLines rest
    return written.toList ++ later
  | ⟨_, none⟩ :: _ => return []

end Stdio

end Server

end Factum
