/-
This file embeds the read surface of the MCP handler: the tools `factum_query`,
`factum_lookup` and `factum_search`, and the listing and reading of resources.

Every reading call answers as one fixed principal, the public one, and none writes. A
call is a computation over the store that returns a JSON-RPC response, for an error of
the client as well; it stops without one only where the code would panic.

The decoders of the tool arguments are derived by a library, and lower-casing, the
clock and the JSON texts of floating-point numbers come from libraries too. They are
one record that every call takes, `Outside`.
-/

import Factum.Compact
import Factum.Parser
import Factum.Query

namespace Factum

open Stateful

/-! ### Messages -/

/-- JSON-RPC 2.0 request. -/
structure JsonRpcRequest (D : Type) where
  id : Json D
  params : Option (Json D)

/-- JSON-RPC 2.0 error. -/
structure JsonRpcError (D : Type) where
  code : Int
  message : String
  data : Option (Json D)

/-- The error for parameters that are not valid. -/
def JsonRpcError.invalidParams {D : Type} (message : String) : JsonRpcError D :=
  ⟨-32602, message, none⟩

/-- JSON-RPC 2.0 response. -/
structure JsonRpcResponse (D : Type) where
  jsonrpc : String
  id : Json D
  result : Option (Json D)
  error : Option (JsonRpcError D)

section Responses

variable {D : Type}

/-- A response with a result. -/
def JsonRpcResponse.success (id result : Json D) : JsonRpcResponse D :=
  ⟨"2.0", id, some result, none⟩

/-- A response with an error. -/
def JsonRpcResponse.failure (id : Json D) (error : JsonRpcError D) : JsonRpcResponse D :=
  ⟨"2.0", id, none, some error⟩

/-- `ToolResult::structured` as JSON: the value, and its text for clients that read text. -/
def structuredResult (doubleText : D → String) (value : Json D) : Json D :=
  .object [
    ("content", .arr [.object [("type", .str "text"), ("text", .str (value.render doubleText))]]),
    ("structuredContent", value),
    ("isError", .bool false)]

end Responses

/-! ### Parameters of the tools -/

/-- Parameters for the `factum_query` tool. -/
structure FactumQueryParams (D F : Type) where
  query : String
  policy : Option String
  asOf : Option String
  minConfidence : Option F
  agentWeights : Option (Json D)

/-- Parameters for the `factum_lookup` tool. -/
structure FactumLookupParams (F : Type) where
  entity : String
  minConfidence : Option F

/-- Parameters for the `factum_search` tool. -/
structure FactumSearchParams where
  mode : String
  keyword : Option String
  limit : Option Nat

/-- What the handler takes from the libraries and the clock. A decoder that fails returns
the text of its error. `D` are the floating-point numbers of JSON values, `F` the scores. -/
structure Outside (D F : Type) where
  host : Host F
  /-- The order in which hash maps with string keys are iterated. -/
  hasher : Hash.Order String
  /-- `Utc::now()`. -/
  now : DateTime
  /-- `s.to_lowercase()`. -/
  toLowercase : String → String
  /-- The JSON text of a score. -/
  scoreText : F → String
  /-- The JSON text of a floating-point number. -/
  doubleText : D → String
  /-- `n.as_f64()` of an integer, as a score. -/
  intAsScore : Int → F
  /-- A floating-point number as a score. -/
  doubleAsScore : D → F
  queryParams : Json D → Except String (FactumQueryParams D F)
  lookupParams : Json D → Except String (FactumLookupParams F)
  searchParams : Json D → Except String FactumSearchParams

/-- The form in which results are serialized. -/
inductive PreferredForm where
  | compact
  | canonical
deriving DecidableEq, Repr

/-- Extract predicate head as string for display and comparison. -/
def predicateHeadStr : PredicateHead → String
  | .name name => name
  | .id _ => "<morpheme-id>"

/-- What starts the URI of every node. -/
def nodeUriPrefix : String := "factum://nodes/"

/-- The URI of a node. -/
def nodeResourceUri (id : String) : String := nodeUriPrefix ++ id

/-- `text.strip_prefix(start)`. -/
def stripPrefix? (start text : String) : Option String :=
  if start.toList.isPrefixOf text.toList then
    some (String.ofList (text.toList.drop start.toList.length))
  else none

/-- Extract the node identifier from a resource URI. -/
def parseNodeResourceUri (uri : String) : Option String := stripPrefix? nodeUriPrefix uri

/-- `text.contains(part)`. -/
def containsText (text part : String) : Bool := decide (part.toList <:+: text.toList)

/-- The weights of a vote: the numbers of an object. -/
def parseAgentWeights {D F : Type} (out : Outside D F) :
    Option (Json D) → AList (fun _ : String => F)
  | some (.obj fields) =>
    fields.foldl (fun weights field => match field.2 with
      | .int n => weights.insert field.1 (out.intAsScore n)
      | .float x => weights.insert field.1 (out.doubleAsScore x)
      | _ => weights) ∅
  | _ => ∅

namespace McpHandler

open FactumStore

section Tools

variable {D F B : Type} [F32 F] [StorageBackend F B] (out : Outside D F)
  (preferredForm : PreferredForm) (req : JsonRpcRequest D)

/-- The texts of some nodes in the preferred form. -/
def nodeTexts (nodes : List (Node F)) (registry : MorphemeRegistry) : Json D :=
  match preferredForm with
  | .canonical => .arr (nodes.map fun node => .str (canonical out.host node))
  | .compact => .arr (nodes.map fun node => .str (compact out.host out.scoreText node registry))

/-- The field that only a canonical answer has. -/
def formField : List (String × Json D) :=
  match preferredForm with
  | .canonical => [("form", .str "canonical")]
  | .compact => []

/-- Reply with a tool result. -/
def replyWith (value : Json D) : JsonRpcResponse D :=
  .success req.id (structuredResult out.doubleText value)

/-- Reply that the parameters are invalid. -/
def refuse (message : String) : JsonRpcResponse D :=
  .failure req.id (.invalidParams message)

/-! ### The query tool -/

/-- The conflict policy that a query asks for. -/
def policyOf (params : FactumQueryParams D F) : ConflictPolicy F :=
  match params.policy with
  | some "latest" => .latestWins
  | some "authority" => .highestAuthority
  | some "unanimous" => .unanimous
  | some "weighted" => .weightedVote (parseAgentWeights out params.agentWeights)
  | some _ => .latestWins
  | none => .latestWins

/-- The instant that a query asks about; a text that is no instant is ignored. -/
def instantOf (params : FactumQueryParams D F) : DateTime :=
  match params.asOf with
  | some text =>
    match out.host.datetimeFromStr text with
    | .ok instant => instant
    | .error _ => out.now
  | none => out.now

/-- The options of a query. The permission context is not among its parameters. -/
def optionsOf (params : FactumQueryParams D F) : QueryOptions F where
  policy := policyOf out params
  now := instantOf out params
  minConf := ⟨params.minConfidence.getD (F32.lit 0 0)⟩
  perm := .publicAccess

/-- Execute the `factum_query` tool. -/
def toolQuery (args : Json D) : StoreM F B (JsonRpcResponse D) := do
  match out.queryParams args with
  | .error message => return refuse req message
  | .ok params =>
    match Parser.parsePredicate out.host params.query with
    | .error (.fail error) => return refuse req ("Query parse error: " ++ error.display)
    | .error .panic => throw .panic
    | .error .fuel => throw .fuel
    | .ok pattern => do
      let found ← query out.hasher out.host ⟨pattern, none⟩ (optionsOf out params)
      let nodes := found.results.map (·.node)
      return replyWith out req (.object
        (("nodes", nodeTexts out preferredForm nodes (← get).registry) ::
          formField preferredForm ++
          [("count", .int found.results.length), ("ambiguous", .bool found.ambiguous)]))

/-! ### The lookup tool -/

/-- Execute the `factum_lookup` tool: all knowledge about an entity. -/
def toolLookup (args : Json D) : StoreM F B (JsonRpcResponse D) := do
  match out.lookupParams args with
  | .error message => return refuse req message
  | .ok params => do
    let entityName := (stripPrefix? "@" params.entity).getD params.entity
    let found ← lookupByEntity ⟨entityName⟩
    let confident : List (Node F) := match params.minConfidence with
      | some minConf => found.filter fun node => F32.le minConf node.confidence.value
      | none => found
    let nodes := confident.filter fun node =>
      node.status == .active && checkPermission node .publicAccess
    return replyWith out req (.object
      (("nodes", nodeTexts out preferredForm nodes (← get).registry) ::
        formField preferredForm ++ [("count", .int nodes.length)]))

/-! ### The search tool -/

/-- Where a keyword, in lower case, occurs in a node. -/
def matchTypes (kwLower : String) (node : Node F) : List String :=
  let occursIn (text : String) : Bool := containsText (out.toLowercase text) kwLower
  let entityIds := node.predicate.args.filterMap fun arg => match arg with
    | .ent entity => some entity.asStr
    | _ => none
  (if occursIn node.id.asStr then ["node-id"] else []) ++
    (if occursIn (predicateHeadStr node.predicate.head) then ["predicate-head"] else []) ++
    (if entityIds.any occursIn then ["entity"] else []) ++
    (if occursIn (canonical out.host node) then ["content"] else []) ++
    (match node.note with
      | some note => if occursIn note then ["note"] else []
      | none => [])

/-- An argument in a summary. -/
def summaryArg : Term → String
  | .ent entity => " @" ++ entity.asStr
  | .var name => " ?" ++ name
  | .lit literal => " " ++ String.ofList (literal.toCanonicalString out.host)
  | .compound _ => ""
  | .list _ => ""

/-- A human-readable summary of a node. -/
def summary (node : Node F) : String :=
  "(node " ++ node.id.asStr ++ " :pred (" ++ predicateHeadStr node.predicate.head ++
    String.join (node.predicate.args.map (summaryArg out)) ++ "))"

/-- A match of a keyword search. -/
def matchJson (node : Node F) (types : List String) : Json D :=
  .object [
    ("node_id", .str node.id.asStr),
    ("predicate_head", .str (predicateHeadStr node.predicate.head)),
    ("match_type", .arr (types.map .str)),
    ("summary", .str (summary out node)),
    ("note", (node.note.map Json.str).getD .null)]

/-- The loop of a keyword search, which ends at the limit. -/
def searchLoop (kwLower : String) (limit : Nat) :
    List (Node F) → List (Json D) → List (Json D)
  | [], found => found
  | node :: rest, found =>
    if limit ≤ found.length then found
    else
      let types := matchTypes out kwLower node
      if types.isEmpty then searchLoop kwLower limit rest found
      else searchLoop kwLower limit rest (found ++ [matchJson out node types])

/-- How many nodes there are for each predicate head, in the order of the heads. -/
def predCounts (nodes : List (Node F)) : Std.TreeMap String Nat :=
  nodes.foldl (fun counts node =>
    let head := predicateHeadStr node.predicate.head
    counts.insert head ((counts[head]?).getD 0 + 1)) ∅

/-- The heads with their counts as JSON. -/
def predicatesJson (counts : Std.TreeMap String Nat) : Json D :=
  .arr (counts.toList.map fun entry =>
    .object [("predicate", .str entry.1), ("count", .int entry.2)])

/-- The answer of a keyword search. -/
def keywordJson (keyword : String) (limit : Nat) (activeNodes : List (Node F)) : Json D :=
  let found := searchLoop out (out.toLowercase keyword) limit activeNodes []
  .object [
    ("mode", .str "keyword"),
    ("keyword", .str keyword),
    ("results", .arr found),
    ("count", .int found.length),
    ("truncated", .bool (found.length == limit))]

/-- The answer of a listing of predicate heads. -/
def headsJson (activeNodes : List (Node F)) : Json D :=
  .object [
    ("mode", .str "predicates"),
    ("predicates", predicatesJson (predCounts activeNodes)),
    ("distinct_count", .int (predCounts activeNodes).toList.length),
    ("total_active", .int activeNodes.length)]

/-- The answer of a request for counts. -/
def statsJson (total : Nat) (activeNodes : List (Node F)) : Json D :=
  .object [
    ("mode", .str "stats"),
    ("total_nodes", .int total),
    ("active_nodes", .int activeNodes.length),
    ("retracted_nodes", .int (total - activeNodes.length : Nat)),
    ("distinct_predicates", .int (predCounts activeNodes).size),
    ("predicates", predicatesJson (predCounts activeNodes))]

/-- Execute the `factum_search` tool. -/
def toolSearch (args : Json D) : StoreM F B (JsonRpcResponse D) := do
  match out.searchParams args with
  | .error message => return refuse req message
  | .ok params => do
    let activeNodes := (← allActive).filter (checkPermission · .publicAccess)
    match params.mode with
    | "keyword" =>
      match params.keyword with
      | some keyword =>
        if keyword.isEmpty then
          return refuse req "keyword is required when mode=\"keyword\""
        let limit := min (params.limit.getD 50) 200
        return replyWith out req (keywordJson out keyword limit activeNodes)
      | none => return refuse req "keyword is required when mode=\"keyword\""
    | "predicates" => return replyWith out req (headsJson activeNodes)
    | "stats" => do
      let total ← len
      -- the subtraction that counts the retracted nodes would overflow
      if total < activeNodes.length then throw .panic
      return replyWith out req (statsJson total activeNodes)
    | mode =>
      return refuse req
        ("unknown mode: " ++ mode ++ " (expected: keyword, predicates, or stats)")

/-! ### Resources -/

/-- List active nodes visible to the same public principal used by queries. -/
def handleListResources : StoreM F B (JsonRpcResponse D) := do
  let visible := (← allActive).filter (checkPermission · .publicAccess)
  let nodes := visible.mergeSort fun a b => decide (a.id.asStr ≤ b.id.asStr)
  let resources := nodes.map fun node => Json.object [
    ("uri", .str (nodeResourceUri node.id.asStr)),
    ("name", .str node.id.asStr),
    ("mimeType", .str "text/plain")]
  return .success req.id (.object [("resources", .arr resources)])

/-- The node that a read of a resource finds; the reasons for which it finds none are
dropped. -/
def readable (id : NodeId) : StoreM F B (Option (Node F)) := fun store =>
  match getWithPerm id .publicAccess store with
  | .ok node after => .ok (if node.status == .active then some node else none) after
  | .error (.fail _) after => .ok none after
  | .error stop after => .error stop after

/-- Handle `resources/read`: read a node resource. -/
def handleReadResource : StoreM F B (JsonRpcResponse D) := do
  match req.params with
  | none => return refuse req "missing params"
  | some params => do
    let uri := ((params.get? "uri").bind Json.asStr?).getD ""
    match parseNodeResourceUri uri with
    | none => return refuse req ("invalid resource URI: " ++ uri)
    | some id => do
      match ← readable ⟨id⟩ with
      | some node =>
        return .success req.id (.object [("contents", .arr [.object [
          ("uri", .str uri),
          ("mimeType", .str "text/plain"),
          ("text", .str (canonical out.host node))]])])
      | none => return refuse req "resource not found or not accessible"

/-- A call of the read surface. The arguments of a tool are any JSON value. -/
inductive ReadCall (D : Type) where
  | query (args : Json D)
  | lookup (args : Json D)
  | search (args : Json D)
  | listResources
  | readResource

/-- Serve a call of the read surface. -/
def serve : ReadCall D → StoreM F B (JsonRpcResponse D)
  | .query args => toolQuery out preferredForm req args
  | .lookup args => toolLookup out preferredForm req args
  | .search args => toolSearch out req args
  | .listResources => handleListResources req
  | .readResource => handleReadResource out req

end Tools

end McpHandler

end Factum
