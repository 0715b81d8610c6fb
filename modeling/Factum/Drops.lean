/-
This file is about whether the write tools drop facts.

The insert and upsert tools keep the first node of their text alone, and all of them pass
over a form that is no node without a word. So each form of a text is stored by a call that
succeeds exactly when every form is a node, and, for the tools of one node, when all forms
write the same one. A batch reports the number of its texts, which is the number of the
nodes that it stored exactly when there is one form in each text.
-/

import Factum.Forms
import Factum.Upserts

namespace Factum

open Stateful

variable {D F : Type}

/-- The number of nodes that a tool result reports as inserted. -/
def JsonRpcResponse.inserted? (response : JsonRpcResponse D) : Option (Json D) :=
  (response.result.bind (·.get? "structuredContent")).bind (·.get? "inserted")

namespace FactumStore

/-! ### Nodes that a call stores -/

/-- A node that was not stored before and is stored after, whatever its status is then. -/
structure NewlyStored (before after : MemStore F) (node : Node F) : Prop where
  fresh : before.nodeAt node.id = none
  stored : ∃ status, after.nodeAt node.id = some { node with status := status }

/-- These nodes and no others were stored. -/
structure Adds (before after : MemStore F) (nodes : List (Node F)) : Prop where
  each : ∀ node ∈ nodes, NewlyStored before after node
  only : ∀ id stored, before.nodeAt id = none → after.nodeAt id = some stored →
    ∃ node ∈ nodes, node.id = id ∧ ∃ status, stored = { node with status := status }

/-- The identifiers under which a node was not stored before and one is stored after. -/
structure NewIds (before after : MemStore F) (ids : List NodeId) : Prop where
  nodup : ids.Nodup
  mem_iff : ∀ id, id ∈ ids ↔ before.nodeAt id = none ∧ (after.nodeAt id).isSome

theorem adds_admitted {store : MemStore F} {nodes : List (Node F)} (accepts : store.Accepts nodes) :
    Adds store (store.admitted nodes) nodes where
  each node member := ⟨accepts.fresh node member, node.status,
    (nodeAt_admitted_eq_some accepts node.id node).mpr (.inl ⟨member, rfl⟩)⟩
  only id stored fresh isStored := by
    rcases (nodeAt_admitted_eq_some accepts id stored).mp isStored with ⟨member, sameId⟩ | old
    · exact ⟨stored, member, sameId, stored.status, rfl⟩
    · rw [fresh] at old
      cases old

theorem Adds.congr {before after after' : MemStore F} {nodes : List (Node F)}
    (adds : Adds before after nodes) (same : ∀ id, after'.nodeAt id = after.nodeAt id) :
    Adds before after' nodes where
  each node member := ⟨(adds.each node member).fresh, by
    rw [same]
    exact (adds.each node member).stored⟩
  only id stored fresh isStored := adds.only id stored fresh (by rwa [← same])

/-- A retraction changes only the status of nodes. -/
theorem Adds.retract {before after : MemStore F} {nodes : List (Node F)}
    (adds : Adds before after nodes) (keyed : after.Keyed) (id : NodeId) (maxNodes : Nat) :
    Adds before (after.after (.retractWithLimit id maxNodes)) nodes := by
  by_cases retracts : after.Retracts id maxNodes
  · have isLater : ∀ other, (after.after (.retractWithLimit id maxNodes)).nodeAt other =
        if other ∈ (after.cascadeTrace id maxNodes).marked
          then (after.nodeAt other).map Node.retract else after.nodeAt other := by
      rw [after_retract_of_retracts keyed retracts]
      exact nodeAt_retractAll _ keyed
    refine ⟨fun node member => ⟨(adds.each node member).fresh, ?_⟩,
      fun other stored fresh isStored => ?_⟩
    · obtain ⟨status, isStored⟩ := (adds.each node member).stored
      rw [isLater, isStored]
      split_ifs
      · exact ⟨.retracted, rfl⟩
      · exact ⟨status, rfl⟩
    · rw [isLater] at isStored
      split_ifs at isStored
      · obtain ⟨found, isFound, rfl⟩ := Option.map_eq_some_iff.mp isStored
        obtain ⟨node, member, sameId, status, rfl⟩ := adds.only other found fresh isFound
        exact ⟨node, member, sameId, .retracted, rfl⟩
      · exact adds.only other stored fresh isStored
  · exact adds.congr (sameData_after_retract retracts).1

/-- A node of the same status is newly stored exactly when it is one of those that were. -/
theorem Adds.newlyStored_iff {before after : MemStore F} {nodes : List (Node F)}
    (adds : Adds before after nodes) {status : NodeStatus}
    (sameStatus : ∀ node ∈ nodes, node.status = status) {node : Node F}
    (isStatus : node.status = status) : NewlyStored before after node ↔ node ∈ nodes := by
  refine ⟨fun ⟨fresh, status', stored⟩ => ?_, adds.each node⟩
  obtain ⟨other, member, _, status'', same⟩ := adds.only node.id _ fresh stored
  have isOther : node = other := by
    have otherStatus := sameStatus other member
    cases node
    cases other
    dsimp only at isStatus otherStatus same
    rw [isStatus, otherStatus]
    cases same
    rfl
  exact isOther ▸ member

theorem Adds.newIds {before after : MemStore F} {nodes : List (Node F)}
    (adds : Adds before after nodes) (distinct : (nodes.map Node.id).Nodup) :
    NewIds before after (nodes.map Node.id) where
  nodup := distinct
  mem_iff id := by
    rw [List.mem_map]
    constructor
    · rintro ⟨node, member, rfl⟩
      obtain ⟨status, stored⟩ := (adds.each node member).stored
      exact ⟨(adds.each node member).fresh, by rw [stored]; rfl⟩
    · rintro ⟨fresh, isSome⟩
      obtain ⟨stored, isStored⟩ := Option.isSome_iff_exists.mp isSome
      obtain ⟨node, member, sameId, _⟩ := adds.only id stored fresh isStored
      exact ⟨node, member, sameId⟩

theorem NewIds.length_eq {before after : MemStore F} {ids ids' : List NodeId}
    (new : NewIds before after ids) (new' : NewIds before after ids') : ids.length = ids'.length :=
  ((List.perm_ext_iff_of_nodup new.nodup new'.nodup).mpr fun id =>
    (new.mem_iff id).trans (new'.mem_iff id).symm).length_eq

end FactumStore

namespace McpHandler

open FactumStore

/-! ### Forms that are stored -/

section Texts

variable [F32 F] (out : WriteOutside D F)

/-- Each form of a text writes a node that was newly stored, as the tool stores it. -/
def Represented (stores : Node F → Node F) (before after : MemStore F) (text : String) : Prop :=
  ∀ form ∈ formsOf text, ∃ node, Parser.writes out.host form = some node ∧
    NewlyStored before after (stores node)

/-- Each form of a text starts like a node, and all of them write the same one. -/
def WritesOne (stores : Node F → Node F) (text : String) : Prop :=
  (∀ form ∈ formsOf text, IsNodeForm form) ∧
    ∀ form ∈ formsOf text, ∀ form' ∈ formsOf text, ∀ node node',
      Parser.writes out.host form = some node → Parser.writes out.host form' = some node' →
        stores node = stores node'

variable {out} {stores : Node F → Node F} {text : String} {nodes : List (Node F)}

theorem exists_form_iff (sameNodes : (formsOf text).map (Parser.writes out.host) = nodes.map some)
    (node : Node F) :
    (∃ form ∈ formsOf text, Parser.writes out.host form = some node) ↔ node ∈ nodes := by
  rw [← List.mem_map, sameNodes, List.mem_map]
  simp

theorem represented_iff (parsed : Parser.parse out.host text = .ok nodes)
    (before after : MemStore F) :
    Represented out stores before after text ↔ (∀ form ∈ formsOf text, IsNodeForm form) ∧
      ∀ node ∈ nodes, NewlyStored before after (stores node) := by
  constructor
  · intro represented
    have areNodes : ∀ form ∈ formsOf text, IsNodeForm form := by
      intro form member
      obtain ⟨node, isWritten, _⟩ := represented form member
      exact Parser.isNodeForm_of_writes isWritten
    refine ⟨areNodes, fun node member => ?_⟩
    obtain ⟨form, isForm, isWritten⟩ :=
      (exists_form_iff (map_writes_of_parse parsed areNodes) node).mpr member
    obtain ⟨node', isWritten', stored⟩ := represented form isForm
    rw [isWritten] at isWritten'
    cases isWritten'
    exact stored
  · rintro ⟨areNodes, stored⟩ form member
    have sameNodes := map_writes_of_parse parsed areNodes
    have inNodes : Parser.writes out.host form ∈ nodes.map some :=
      sameNodes ▸ List.mem_map_of_mem member
    obtain ⟨node, inNodes, isWritten⟩ := List.mem_map.mp inNodes
    exact ⟨node, isWritten.symm, stored node inNodes⟩

theorem writesOne_iff {node : Node F} {rest : List (Node F)}
    (parsed : Parser.parse out.host text = .ok (node :: rest)) :
    WritesOne out stores text ↔ (∀ form ∈ formsOf text, IsNodeForm form) ∧
      ∀ node' ∈ node :: rest, stores node' = stores node := by
  refine and_congr_right fun areNodes => ?_
  have isNode := exists_form_iff (map_writes_of_parse parsed areNodes)
  constructor
  · intro same node' member
    obtain ⟨form, isForm, isWritten⟩ := (isNode node').mpr member
    obtain ⟨first, isFirst, isWritten'⟩ := (isNode node).mpr List.mem_cons_self
    exact same form isForm first isFirst node' node isWritten isWritten'
  · intro same form isForm form' isForm' node' node'' isWritten isWritten'
    rw [same node' ((isNode node').mp ⟨form, isForm, isWritten⟩),
      same node'' ((isNode node'').mp ⟨form', isForm', isWritten'⟩)]

/-- Where one node of a text is stored, its forms are represented when they all write it. -/
theorem represented_iff_writesOne {node : Node F} {rest : List (Node F)}
    (parsed : Parser.parse out.host text = .ok (node :: rest)) {before after : MemStore F}
    (adds : Adds before after [stores node])
    (keeps : ∀ node, (stores node).status = node.status) :
    Represented out stores before after text ↔ WritesOne out stores text := by
  have active := fun node' member => (Parser.readsAs_of_parse out.host parsed node' member).2
  rw [represented_iff parsed, writesOne_iff parsed]
  refine and_congr_right fun _ => forall₂_congr fun node' member => ?_
  have isActive : ∀ added ∈ [stores node], added.status = .active := by
    intro added member
    rw [List.mem_singleton.mp member, keeps]
    exact active node List.mem_cons_self
  rw [adds.newlyStored_iff isActive (by rw [keeps, active node' member]), List.mem_singleton]

end Texts

/-! ### The insert tool -/

section Insert

variable [F32 F] (out : WriteOutside D F)

/-- The node that an insertion stores for the one that is read. -/
def insertedNode (node : Node F) : Node F :=
  match autoId out node with
  | some id => { node with id := ⟨id⟩ }
  | none => node

omit [F32 F] in
theorem insertedNode_status (node : Node F) : (insertedNode out node).status = node.status := by
  unfold insertedNode
  split <;> rfl

/-- The arguments of an insertion are read as these parameters, and their text starts with this
node. -/
structure InsertReads (args : Json D) (params : FactumInsertParams) (node : Node F) : Prop where
  decoded : out.insertParams args = .ok params
  parsed : ∃ rest, Parser.parse out.host params.node = .ok (node :: rest)

variable {out} {req : JsonRpcRequest D} {args : Json D} {params : FactumInsertParams}
  {node : Node F}

/-- The answer to an insertion that was tried. -/
def replyInserted (req : JsonRpcRequest D) (done : JsonRpcResponse D) :
    Except StoreError Unit → HandlerM F (InMemoryBackend F) (JsonRpcResponse D)
  | .ok () => pure done
  | .error error => pure (refuseStore req error)

/-- What an insertion whose node is read does, by whether the store takes the node. -/
theorem toolInsert_reads (req : JsonRpcRequest D) (reads : InsertReads out args params node)
    (handler : MemHandler F) :
    ∃ reply, (handler.store.Accepts [insertedNode out node] ∧ reply.error.isNone ∧
        toolInsert out req args handler = .ok reply { handler with
          store := handler.store.admitted [insertedNode out node] }) ∨
      (¬ handler.store.Accepts [insertedNode out node] ∧ reply.error.isSome ∧
        toolInsert out req args handler = .ok reply handler) := by
  obtain ⟨decoded, rest, parsed⟩ := reads
  have ran : ∃ done : JsonRpcResponse D, done.error.isNone ∧ toolInsert out req args handler =
      (attempt (FactumStore.insert (insertedNode out node)) >>= replyInserted req done)
        handler := by
    unfold toolInsert insertedNode
    rw [decoded]
    dsimp only
    rw [parsed, readText_bind_ok]
    dsimp only
    cases autoId out node <;> exact ⟨_, rfl, rfl⟩
  obtain ⟨done, succeeds, ran⟩ := ran
  rw [ran]
  by_cases accepts : handler.store.Accepts [insertedNode out node]
  · exact ⟨done, .inl ⟨accepts, succeeds, bind_ok (attempt_insert_of_accepts accepts)⟩⟩
  · obtain ⟨error, refused⟩ := attempt_insert_of_not_accepts accepts
    exact ⟨refuseStore req error, .inr ⟨accepts, rfl, bind_ok refused⟩⟩

/-- An insertion that is answered without an error has read its node. -/
theorem reads_of_toolInsert {reply : JsonRpcResponse D} {handler : MemHandler F}
    (replied : answer (toolInsert out req args) handler = .ok reply)
    (succeeds : reply.error.isNone) : ∃ params node, InsertReads out args params node := by
  unfold toolInsert at replied
  cases decoded : out.insertParams args with
  | error message =>
    rw [decoded] at replied
    cases replied
    cases succeeds
  | ok params =>
    rw [decoded] at replied
    dsimp only at replied
    cases parsed : Parser.parse out.host params.node with
    | error stop =>
      rw [parsed] at replied
      cases stop with
      | fail error =>
        cases replied
        cases succeeds
      | panic => cases replied
      | fuel => cases replied
    | ok nodes =>
      cases nodes with
      | nil =>
        rw [parsed] at replied
        cases replied
        cases succeeds
      | cons node rest => exact ⟨params, node, decoded, rest, parsed⟩

end Insert

/-! ### The batch tool -/

section Batch

variable [F32 F] (out : WriteOutside D F)

/-- The texts of a batch are read as these nodes, text by text. -/
def ParsesAll (texts : List String) (lists : List (List (Node F))) : Prop :=
  texts.map (Parser.parse out.host) = lists.map .ok

/-- The arguments of a batch are read as these parameters, and its texts as these nodes. -/
structure BatchReads (args : Json D) (params : FactumInsertBatchParams)
    (lists : List (List (Node F))) : Prop where
  decoded : out.insertBatchParams args = .ok params
  parsed : ParsesAll out params.nodes lists
  nonempty : lists.flatten ≠ []

variable {out} {args : Json D} {params : FactumInsertBatchParams} {lists : List (List (Node F))}

theorem ParsesAll.length_eq {texts : List String} (parsed : ParsesAll out texts lists) :
    texts.length = lists.length := by simpa using congrArg List.length parsed

theorem ParsesAll.of_text {texts : List String} (parsed : ParsesAll out texts lists) {text : String}
    (member : text ∈ texts) : ∃ nodes ∈ lists, Parser.parse out.host text = .ok nodes := by
  have isRead : Parser.parse out.host text ∈ lists.map .ok := parsed ▸ List.mem_map_of_mem member
  obtain ⟨nodes, isNodes, same⟩ := List.mem_map.mp isRead
  exact ⟨nodes, isNodes, same.symm⟩

theorem ParsesAll.of_nodes {texts : List String} (parsed : ParsesAll out texts lists)
    {nodes : List (Node F)} (member : nodes ∈ lists) :
    ∃ text ∈ texts, Parser.parse out.host text = .ok nodes := by
  have isRead : Except.ok nodes ∈ texts.map (Parser.parse out.host) :=
    parsed ▸ List.mem_map_of_mem member
  exact List.mem_map.mp isRead

theorem parseBatch_run : ∀ {texts : List String} {lists : List (List (Node F))},
    ParsesAll out texts lists → ∀ (i : Nat) (allNodes : List (Node F)) (handler : MemHandler F),
      parseBatch out i texts allNodes handler = .ok (.ok (allNodes ++ lists.flatten)) handler
  | [], lists, parsed, i, allNodes, handler => by
    obtain rfl : lists = [] := List.length_eq_zero_iff.mp parsed.length_eq.symm
    rw [List.flatten_nil, List.append_nil]
    rfl
  | text :: rest, lists, parsed, i, allNodes, handler => by
    obtain ⟨nodes, lists, rfl, first, others⟩ := List.map_eq_cons_iff.mp parsed.symm
    rw [parseBatch, ← first, readText_bind_ok, List.flatten_cons, ← List.append_assoc]
    exact parseBatch_run others.symm (i + 1) (allNodes ++ nodes) handler

theorem parseBatch_ok : ∀ {texts : List String} {i : Nat} {allNodes nodes : List (Node F)}
    {handler after : MemHandler F},
      parseBatch out i texts allNodes handler = .ok (.ok nodes) after →
      ∃ lists, ParsesAll out texts lists ∧ nodes = allNodes ++ lists.flatten
  | [], i, allNodes, nodes, handler, after, ran => by
    cases ran
    exact ⟨[], rfl, (List.append_nil _).symm⟩
  | text :: rest, i, allNodes, nodes, handler, after, ran => by
    rw [parseBatch] at ran
    cases first : Parser.parse out.host text with
    | error stop =>
      rw [first] at ran
      cases stop <;> cases ran
    | ok read =>
      rw [first, readText_bind_ok] at ran
      obtain ⟨lists, parsed, rfl⟩ := parseBatch_ok ran
      refine ⟨read :: lists, ?_, by rw [List.flatten_cons, List.append_assoc]⟩
      exact List.cons_eq_cons.mpr ⟨first, parsed⟩

omit [F32 F] in
theorem attempt_insertBatch (handler : MemHandler F) (nodes : List (Node F)) :
    (handler.store.Accepts nodes ∧ attempt (insertBatch nodes) handler = .ok (.ok ()) { handler with
        store := (handler.store.admitted nodes).log .checkpoint }) ∨
      (¬ handler.store.Accepts nodes ∧
        ∃ error, attempt (insertBatch nodes) handler = .ok (.error error) handler) := by
  have ran := insertBatch_run handler.store nodes
  rw [accepts_iff]
  cases rejected : nodes.findSome? handler.store.rejection with
  | some reason =>
    rw [rejected] at ran
    exact .inr ⟨nofun, _, attempt_fail ran⟩
  | none =>
    cases duplicate : handler.store.firstDuplicate nodes [] with
    | some id =>
      rw [rejected, duplicate] at ran
      exact .inr ⟨nofun, _, attempt_fail ran⟩
    | none =>
      rw [rejected, duplicate] at ran
      exact .inl ⟨⟨rfl, rfl⟩, attempt_ok ran⟩

/-- What a batch whose nodes are read does, by whether the store takes the nodes. -/
theorem toolInsertBatch_reads (req : JsonRpcRequest D) (reads : BatchReads out args params lists)
    (handler : MemHandler F) :
    ∃ reply, (handler.store.Accepts lists.flatten ∧ reply.error.isNone ∧
        reply.inserted? = some (.int params.nodes.length) ∧
        toolInsertBatch out req args handler = .ok reply { handler with
          store := (handler.store.admitted lists.flatten).log .checkpoint }) ∨
      (¬ handler.store.Accepts lists.flatten ∧ reply.error.isSome ∧
        toolInsertBatch out req args handler = .ok reply handler) := by
  obtain ⟨decoded, parsed, nonempty⟩ := reads
  have read := parseBatch_run parsed 0 [] handler
  rw [List.nil_append] at read
  unfold toolInsertBatch
  rw [decoded]
  dsimp only
  rw [bind_ok read]
  dsimp only
  rw [if_neg (by simpa using nonempty)]
  rcases attempt_insertBatch handler lists.flatten with ⟨accepts, ran⟩ | ⟨refuses, error, ran⟩
  · refine ⟨_, .inl ⟨accepts, rfl, ?_, bind_ok ran⟩⟩
    unfold JsonRpcResponse.inserted?
    rw [content_replyWith, Option.bind_some, Json.get?_object (by simp) List.mem_cons_self]
  · exact ⟨_, .inr ⟨refuses, rfl, bind_ok ran⟩⟩

/-- A batch that is answered without an error has read its nodes. -/
theorem reads_of_toolInsertBatch {req : JsonRpcRequest D} {reply : JsonRpcResponse D}
    {handler : MemHandler F}
    (replied : answer (toolInsertBatch out req args) handler = .ok reply)
    (succeeds : reply.error.isNone) : ∃ params lists, BatchReads out args params lists := by
  unfold toolInsertBatch at replied
  cases decoded : out.insertBatchParams args with
  | error message =>
    rw [decoded] at replied
    cases replied
    cases succeeds
  | ok params =>
    rw [decoded] at replied
    dsimp only at replied
    obtain ⟨after, ran⟩ := answer_eq_ok.mp replied
    obtain ⟨read, between, parsed, ran⟩ := bind_eq_ok.mp ran
    cases read with
    | error message =>
      cases ran
      cases succeeds
    | ok nodes =>
      obtain ⟨lists, parsesAll, rfl⟩ := parseBatch_ok parsed
      refine ⟨params, lists, decoded, parsesAll, fun isEmpty => ?_⟩
      dsimp only at ran
      rw [List.nil_append, isEmpty] at ran
      cases ran
      cases succeeds

end Batch

/-! ### No fact is dropped -/

section Kept

variable [F32 F] (out : WriteOutside D F)

/-- An insertion that succeeds has stored each form of its text. -/
def InsertKeeps (handler : MemHandler F) (call : HandlerCall D) : Prop :=
  ∀ args, call.tool = .insert args → ∀ reply, handler.response out call = .ok reply →
    reply.error.isNone → ∀ params, out.insertParams args = .ok params →
      Represented out (insertedNode out) handler.store (handler.after out call).store params.node

/-- The forms of these texts were stored, at least one for each text, and the number that the
reply reports is that of the nodes that were stored. -/
structure BatchKept (texts : List String) (reply : JsonRpcResponse D)
    (before after : MemStore F) : Prop where
  represented : ∀ text ∈ texts, Represented out id before after text
  contributes : ∀ text ∈ texts, ∃ form ∈ formsOf text, ∃ node,
    Parser.writes out.host form = some node ∧ NewlyStored before after node
  counted : ∀ ids, NewIds before after ids → reply.inserted? = some (.int ids.length)

/-- A batch that succeeds has stored the forms of its texts. -/
def BatchKeeps (handler : MemHandler F) (call : HandlerCall D) : Prop :=
  ∀ args, call.tool = .insertBatch args → ∀ reply, handler.response out call = .ok reply →
    reply.error.isNone → ∀ params, out.insertBatchParams args = .ok params →
      BatchKept out params.nodes reply handler.store (handler.after out call).store

/-- An upsert that inserted or updated has stored each form of its text. -/
def UpsertKeeps (handler : MemHandler F) (call : HandlerCall D) : Prop :=
  ∀ args, call.tool = .upsert args → ∀ reply, handler.response out call = .ok reply →
    reply.action? = some "inserted" ∨ reply.action? = some "updated" →
      ∀ params, out.upsertParams args = .ok params →
        Represented out id handler.store (handler.after out call).store params.node

/-- A write tool that succeeds drops no fact of its texts. -/
structure KeepsFacts (handler : MemHandler F) (call : HandlerCall D) : Prop where
  insert : InsertKeeps out handler call
  batch : BatchKeeps out handler call
  upsert : UpsertKeeps out handler call

/-- Each form is a node, and there is one for each node that the tool stores: all forms of the
text of an insertion or an upsert that is taken write the same node, and each text of a batch
that is taken has one form. -/
structure OneFormEach (handler : MemHandler F) (call : HandlerCall D) : Prop where
  insert : ∀ args, call.tool = .insert args → ∀ params node, InsertReads out args params node →
    handler.store.Accepts [insertedNode out node] → WritesOne out (insertedNode out) params.node
  batch : ∀ args, call.tool = .insertBatch args → ∀ params lists,
    BatchReads out args params lists → handler.store.Accepts lists.flatten →
      ∀ text ∈ params.nodes, ∃ form, formsOf text = [form] ∧ IsNodeForm form
  upsert : ∀ args, call.tool = .upsert args → ∀ params node, UpsertReads out args params node →
    handler.store.Accepts [node] → (replacedNodes handler.store params).length ≤ 1 →
      WritesOne out id params.node

variable {out}

theorem InsertReads.unique {args : Json D} {params params' : FactumInsertParams} {node : Node F}
    (reads : InsertReads out args params node) (decoded : out.insertParams args = .ok params') :
    params' = params := Except.ok.inj (decoded.symm.trans reads.decoded)

variable (out) in
theorem insertKeeps_iff (handler : MemHandler F) (call : HandlerCall D) :
    InsertKeeps out handler call ↔ ∀ args, call.tool = .insert args → ∀ params node,
      InsertReads out args params node → handler.store.Accepts [insertedNode out node] →
        WritesOne out (insertedNode out) params.node := by
  obtain ⟨now, preferredForm, req, tool⟩ := call
  have represents : ∀ {params : FactumInsertParams} {node : Node F} {rest : List (Node F)},
      Parser.parse out.host params.node = .ok (node :: rest) →
      handler.store.Accepts [insertedNode out node] →
      (Represented out (insertedNode out) handler.store
        (handler.store.admitted [insertedNode out node]) params.node ↔
        WritesOne out (insertedNode out) params.node) :=
    fun parsed accepts =>
      represented_iff_writesOne parsed (adds_admitted accepts) (insertedNode_status out)
  have whole : ∀ {args params node}, InsertReads out args params node → ∃ reply,
      (handler.store.Accepts [insertedNode out node] ∧ reply.error.isNone ∧
        handle out ⟨now, preferredForm, req, .insert args⟩ handler = .ok reply { handler with
          store := handler.store.admitted [insertedNode out node] }) ∨
      (¬ handler.store.Accepts [insertedNode out node] ∧ reply.error.isSome ∧
        handle out ⟨now, preferredForm, req, .insert args⟩ handler = .ok reply handler) := by
    intro args params node reads
    have reads' : InsertReads { out with now := now } args params node := ⟨reads.1, reads.2⟩
    exact toolInsert_reads req reads' handler
  constructor
  · rintro keeps args rfl params node reads accepts
    obtain ⟨reply, ⟨_, succeeds, ran⟩ | ⟨refuses, _⟩⟩ := whole reads
    · have represented := keeps args rfl reply (answer_ok ran) succeeds params reads.decoded
      rw [after, final_ok ran] at represented
      exact (represents reads.parsed.choose_spec accepts).mp represented
    · exact absurd accepts refuses
  · rintro writesOne args rfl reply replied succeeds params decoded
    have read : ∃ params node, InsertReads { out with now := now } args params node :=
      reads_of_toolInsert replied succeeds
    obtain ⟨params', node, decoded', parsed⟩ := read
    have reads : InsertReads out args params' node := ⟨decoded', parsed⟩
    obtain rfl := reads.unique decoded
    obtain ⟨reply', ⟨accepts, _, ran⟩ | ⟨_, fails, ran⟩⟩ := whole reads
    · rw [after, final_ok ran]
      exact (represents parsed.choose_spec accepts).mpr
        (writesOne args rfl params node reads accepts)
    · obtain rfl : reply' = reply := Except.ok.inj ((answer_ok ran).symm.trans replied)
      rw [Option.isNone_iff_eq_none.mp succeeds] at fails
      cases fails

theorem BatchReads.unique {args : Json D} {params params' : FactumInsertBatchParams}
    {lists : List (List (Node F))} (reads : BatchReads out args params lists)
    (decoded : out.insertBatchParams args = .ok params') : params' = params :=
  Except.ok.inj (decoded.symm.trans reads.decoded)

omit [F32 F] in
/-- Lists that are not empty hold as many elements as they are only if each holds one. -/
theorem length_eq_one_of_flatten {lists : List (List (Node F))}
    (nonempty : ∀ nodes ∈ lists, 1 ≤ nodes.length) (same : lists.flatten.length = lists.length) :
    ∀ nodes ∈ lists, nodes.length = 1 := by
  have enough : ∀ lists : List (List (Node F)), (∀ nodes ∈ lists, 1 ≤ nodes.length) →
      lists.length ≤ lists.flatten.length := by
    intro lists nonempty
    induction lists with
    | nil => exact le_rfl
    | cons nodes rest inductionHypothesis =>
      obtain ⟨first, others⟩ := List.forall_mem_cons.mp nonempty
      rw [List.flatten_cons, List.length_append, List.length_cons, Nat.add_comm]
      exact Nat.add_le_add first (inductionHypothesis others)
  induction lists with
  | nil => exact fun _ member => absurd member List.not_mem_nil
  | cons nodes rest inductionHypothesis =>
    obtain ⟨first, others⟩ := List.forall_mem_cons.mp nonempty
    rw [List.flatten_cons, List.length_append, List.length_cons] at same
    have atLeast := enough rest others
    exact List.forall_mem_cons.mpr ⟨by omega, inductionHypothesis others (by omega)⟩

/-- The forms of a batch are kept exactly when each text has one form and it is a node. -/
theorem batchKept_iff {texts : List String} {lists : List (List (Node F))}
    (parsed : ParsesAll out texts lists) {before after : MemStore F}
    (adds : Adds before after lists.flatten) (distinct : (lists.flatten.map Node.id).Nodup)
    {reply : JsonRpcResponse D} (count : reply.inserted? = some (.int texts.length)) :
    BatchKept out texts reply before after ↔
      ∀ text ∈ texts, ∃ form, formsOf text = [form] ∧ IsNodeForm form := by
  have isNew := adds.newIds distinct
  have sameLength : ∀ {text : String} {nodes : List (Node F)},
      Parser.parse out.host text = .ok nodes → (∀ form ∈ formsOf text, IsNodeForm form) →
      (formsOf text).length = nodes.length := by
    intro text nodes read areNodes
    simpa using congrArg List.length (map_writes_of_parse read areNodes)
  constructor
  · rintro ⟨represented, contributes, counted⟩
    have total : lists.flatten.length = texts.length := by
      have reported := counted _ isNew
      rw [count, List.length_map] at reported
      exact (Int.ofNat.inj (Json.int.inj (Option.some.inj reported))).symm
    have areNodes : ∀ text ∈ texts, ∀ form ∈ formsOf text, IsNodeForm form := by
      intro text member
      obtain ⟨nodes, _, read⟩ := parsed.of_text member
      exact ((represented_iff read _ _).mp (represented text member)).1
    have nonempty : ∀ nodes ∈ lists, 1 ≤ nodes.length := by
      intro nodes member
      obtain ⟨text, inTexts, read⟩ := parsed.of_nodes member
      obtain ⟨form, isForm, _⟩ := contributes text inTexts
      rw [← sameLength read (areNodes text inTexts)]
      exact List.length_pos_of_mem isForm
    intro text member
    obtain ⟨nodes, inLists, read⟩ := parsed.of_text member
    have one := length_eq_one_of_flatten nonempty (total.trans parsed.length_eq) nodes inLists
    rw [← sameLength read (areNodes text member)] at one
    obtain ⟨form, only⟩ := List.length_eq_one_iff.mp one
    exact ⟨form, only, areNodes text member form (only ▸ List.mem_cons_self)⟩
  · intro oneForm
    have areNodes : ∀ text ∈ texts, ∀ form ∈ formsOf text, IsNodeForm form := by
      intro text member
      obtain ⟨form, only, isNode⟩ := oneForm text member
      rw [only]
      exact List.forall_mem_singleton.mpr isNode
    have represented : ∀ text ∈ texts, Represented out id before after text := by
      intro text member
      obtain ⟨nodes, inLists, read⟩ := parsed.of_text member
      exact (represented_iff read _ _).mpr ⟨areNodes text member,
        fun node inNodes => adds.each node (List.mem_flatten.mpr ⟨nodes, inLists, inNodes⟩)⟩
    have ones : ∀ nodes ∈ lists, nodes.length = 1 := by
      intro nodes member
      obtain ⟨text, inTexts, read⟩ := parsed.of_nodes member
      obtain ⟨form, only, _⟩ := oneForm text inTexts
      rw [← sameLength read (areNodes text inTexts), only]
      rfl
    have total : lists.flatten.length = texts.length := by
      rw [parsed.length_eq, List.length_flatten, List.map_congr_left ones, List.map_const']
      simp
    refine ⟨represented, fun text member => ?_, fun ids new => ?_⟩
    · obtain ⟨form, only, _⟩ := oneForm text member
      have isForm : form ∈ formsOf text := only ▸ List.mem_cons_self
      exact ⟨form, isForm, represented text member form isForm⟩
    · rw [count, new.length_eq isNew, List.length_map, total]

variable (out) in
theorem batchKeeps_iff (handler : MemHandler F) (call : HandlerCall D) :
    BatchKeeps out handler call ↔ ∀ args, call.tool = .insertBatch args → ∀ params lists,
      BatchReads out args params lists → handler.store.Accepts lists.flatten →
        ∀ text ∈ params.nodes, ∃ form, formsOf text = [form] ∧ IsNodeForm form := by
  obtain ⟨now, preferredForm, req, tool⟩ := call
  have whole : ∀ {args params lists}, BatchReads out args params lists → ∃ reply,
      (handler.store.Accepts lists.flatten ∧ reply.error.isNone ∧
        reply.inserted? = some (.int params.nodes.length) ∧
        handle out ⟨now, preferredForm, req, .insertBatch args⟩ handler = .ok reply { handler with
          store := (handler.store.admitted lists.flatten).log .checkpoint }) ∨
      (¬ handler.store.Accepts lists.flatten ∧ reply.error.isSome ∧
        handle out ⟨now, preferredForm, req, .insertBatch args⟩ handler = .ok reply handler) := by
    intro args params lists reads
    have reads' : BatchReads { out with now := now } args params lists :=
      ⟨reads.1, reads.2, reads.3⟩
    exact toolInsertBatch_reads req reads' handler
  have taken : ∀ {lists : List (List (Node F))}, handler.store.Accepts lists.flatten →
      Adds handler.store ((handler.store.admitted lists.flatten).log .checkpoint) lists.flatten :=
    fun accepts => (adds_admitted accepts).congr fun _ => rfl
  constructor
  · rintro keeps args rfl params lists reads accepts
    obtain ⟨reply, ⟨_, succeeds, count, ran⟩ | ⟨refuses, _⟩⟩ := whole reads
    · have kept := keeps args rfl reply (answer_ok ran) succeeds params reads.decoded
      rw [after, final_ok ran] at kept
      exact (batchKept_iff reads.parsed (taken accepts) accepts.distinct count).mp kept
    · exact absurd accepts refuses
  · rintro oneForm args rfl reply replied succeeds params decoded
    have read : ∃ params lists, BatchReads { out with now := now } args params lists :=
      reads_of_toolInsertBatch replied succeeds
    obtain ⟨params', lists, decoded', parsed, nonempty⟩ := read
    have reads : BatchReads out args params' lists := ⟨decoded', parsed, nonempty⟩
    obtain rfl := reads.unique decoded
    obtain ⟨reply', ⟨accepts, _, count, ran⟩ | ⟨_, fails, ran⟩⟩ := whole reads
    · obtain rfl : reply' = reply := Except.ok.inj ((answer_ok ran).symm.trans replied)
      rw [after, final_ok ran]
      exact (batchKept_iff reads.parsed (taken accepts) accepts.distinct count).mpr
        (oneForm args rfl params lists reads accepts)
    · obtain rfl : reply' = reply := Except.ok.inj ((answer_ok ran).symm.trans replied)
      rw [Option.isNone_iff_eq_none.mp succeeds] at fails
      cases fails

variable (out) in
theorem upsertKeeps_iff {handler : MemHandler F} (reachable : Reachable handler.store)
    (call : HandlerCall D) : UpsertKeeps out handler call ↔ ∀ args, call.tool = .upsert args →
      ∀ params node, UpsertReads out args params node → handler.store.Accepts [node] →
        (replacedNodes handler.store params).length ≤ 1 → WritesOne out id params.node := by
  have consistent := reachable.consistent
  obtain ⟨now, preferredForm, req, tool⟩ := call
  have whole : ∀ {args params node}, UpsertReads out args params node → ∃ reply later,
      handle out ⟨now, preferredForm, req, .upsert args⟩ handler = .ok reply later ∧
        Upserted handler params node reply later :=
    fun reads => upserted_of_reads req (reads.at_ now) consistent
  constructor
  · rintro keeps args rfl params node reads accepts few
    obtain ⟨reply, later, ran, upserted⟩ := whole reads
    have represented := keeps args rfl reply (answer_ok ran)
    rw [after, final_ok ran] at represented
    obtain ⟨decoded, rest, parsed⟩ := reads
    cases upserted with
    | refused _ refuses => exact absurd accepts refuses
    | ambiguous _ _ several => exact absurd few (by omega)
    | inserted action =>
      exact (represented_iff_writesOne parsed (adds_admitted accepts) fun _ => rfl).mp
        (represented (.inl action) params decoded)
    | updated action =>
      have adds := (adds_admitted accepts).retract (consistent.admitted accepts).keyed
      exact (represented_iff_writesOne parsed (adds _ _) fun _ => rfl).mp
        (represented (.inr action) params decoded)
  · rintro writesOne args rfl reply replied acted params decoded
    by_cases read : ∃ params node, UpsertReads out args params node
    · obtain ⟨params', node, reads⟩ := read
      obtain rfl : params = params' := Except.ok.inj (decoded.symm.trans reads.decoded)
      obtain ⟨reply', later, ran, upserted⟩ := whole reads
      obtain rfl : reply' = reply := Except.ok.inj ((answer_ok ran).symm.trans replied)
      rw [after, final_ok ran]
      have writes := writesOne args rfl params node reads
      obtain ⟨_, rest, parsed⟩ := reads
      cases upserted with
      | refused noAction => simp [noAction] at acted
      | ambiguous _ action => simp [action] at acted
      | inserted _ accepts none_ =>
        exact (represented_iff_writesOne parsed (adds_admitted accepts) fun _ => rfl).mpr
          (writes accepts (by simp [none_]))
      | updated _ accepts found =>
        have adds := (adds_admitted accepts).retract (consistent.admitted accepts).keyed
        exact (represented_iff_writesOne parsed (adds _ _) fun _ => rfl).mpr
          (writes accepts (by simp [found]))
    · have unread : ∀ params node, ¬ UpsertReads { out with now := now } args params node :=
        fun params node reads => read ⟨params, node, reads.1, reads.2⟩
      have noAction := (toolUpsert_unread unread handler).2 reply replied
      simp [noAction] at acted

/-- Throughout a run of the handler the write tools that succeed drop no fact exactly when each
form of their texts is a node, and there is one for each node that a tool stores. -/
theorem facts_kept_iff {handler : MemHandler F} (reachable : Reachable handler.store)
    (calls : List (HandlerCall D)) :
    Along out (KeepsFacts out) handler calls ↔ Along out (OneFormEach out) handler calls := by
  refine along_iff out (fun handler call reachable => ?_) calls reachable
  have insert := insertKeeps_iff out handler call
  have batch := batchKeeps_iff out handler call
  have upsert := upsertKeeps_iff out reachable call
  exact ⟨fun keeps => ⟨insert.mp keeps.1, batch.mp keeps.2, upsert.mp keeps.3⟩,
    fun each => ⟨insert.mpr each.1, batch.mpr each.2, upsert.mpr each.3⟩⟩

end Kept

/-! ### A text of two facts -/

/-- The arguments of an insertion of this text. -/
def insertionArgs (text : String) : Json Unit := .obj [("node", .str text)]

/-- An insertion of this text. -/
def insertion (text : String) : HandlerCall Unit := sampleCall (.insert (insertionArgs text))

/-- A text with one node. -/
def oneFact : String := "(node a :pred (p))"

/-- A text with two nodes. -/
def twoFacts : String := "(node a :pred (p)) (node b :pred (q))"

/-- The first of the facts. -/
def firstFact : Node Rat := Node.new "a" ⟨.name "p", [], []⟩

/-- The second of the facts. -/
def secondFact : Node Rat := Node.new "b" ⟨.name "q", [], []⟩

/-- The insertion of two facts succeeds and stores the first one. -/
theorem insertion_drops_fact :
    ∃ handler : MemHandler Rat, Reachable handler.store ∧
      ¬ KeepsFacts sampleWrites handler (insertion twoFacts) := by
  refine ⟨premiseHandler, reachable_premiseHandler, fun keeps => ?_⟩
  have parsed : Parser.parse sampleWrites.host twoFacts = .ok [firstFact, secondFact] := by
    decide +kernel
  have reads : InsertReads sampleWrites (insertionArgs twoFacts) ⟨twoFacts⟩ firstFact :=
    ⟨rfl, [secondFact], parsed⟩
  have writesOne := (insertKeeps_iff sampleWrites premiseHandler _).mp keeps.insert _ rfl _ _ reads
    ((accepts_iff _ _).mpr (by decide +kernel))
  have same := ((writesOne_iff parsed).mp writesOne).2 secondFact (by simp)
  exact absurd (congrArg Node.id same) (by decide +kernel)

/-- The insertion of one fact keeps it. -/
theorem facts_kept_iff_oneFact :
    Along sampleWrites (KeepsFacts sampleWrites) premiseHandler [insertion oneFact] := by
  refine (facts_kept_iff reachable_premiseHandler _).mpr ⟨⟨?_, nofun, nofun⟩, trivial⟩
  rintro args isCall params node reads _
  cases isCall
  have parsed : Parser.parse sampleWrites.host oneFact = .ok [firstFact] := by decide +kernel
  have readsOne : InsertReads sampleWrites (insertionArgs oneFact) ⟨oneFact⟩ firstFact :=
    ⟨rfl, [], parsed⟩
  obtain rfl := reads.unique readsOne.decoded
  refine (writesOne_iff parsed).mpr ⟨by decide +kernel, fun node member => ?_⟩
  rw [List.mem_singleton.mp member]

end McpHandler

end Factum
