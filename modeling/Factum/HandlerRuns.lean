/-
This file is about runs of the handler over an in-memory store.

Every call leaves a store that some calls of the store reach from the one before it, so what
holds of every reachable store holds throughout a run of the handler. A property of each
call of a run, with the handler before it, is therefore the same as another one when the
two are the same for every call on a reachable store.
-/

import Factum.Disclosure
import Factum.Retraction
import Factum.WriteTools

namespace Factum

open Stateful

variable {D F : Type}

/-- A handler over an in-memory store. -/
abbrev MemHandler (F : Type) := McpHandler F (InMemoryBackend F)

namespace McpHandler

open FactumStore

/-! ### The steps of a tool -/

section Steps

variable {α β : Type}

theorem onStore_ok {method : StoreM F (InMemoryBackend F) α} {handler : MemHandler F} {value : α}
    {store : MemStore F} (ran : method handler.store = .ok value store) :
    onStore method handler = .ok value { handler with store := store } := by
  rw [onStore, ran]

theorem attempt_ok {method : StoreM F (InMemoryBackend F) α} {handler : MemHandler F} {value : α}
    {store : MemStore F} (ran : method handler.store = .ok value store) :
    attempt method handler = .ok (.ok value) { handler with store := store } := by
  rw [attempt, ran]

theorem attempt_fail {method : StoreM F (InMemoryBackend F) α} {handler : MemHandler F}
    {error : StoreError} {store : MemStore F}
    (ran : method handler.store = .error (.fail error) store) :
    attempt method handler = .ok (.error error) { handler with store := store } := by
  rw [attempt, ran]

/-- The store after a tried call is the one that the call leaves. -/
theorem store_final_attempt (method : StoreM F (InMemoryBackend F) α) (handler : MemHandler F) :
    (final (attempt method) handler).store = final method handler.store := by
  cases ran : method handler.store with
  | ok value store => rw [final_ok (attempt_ok ran), final_ok ran]
  | error stop store =>
    rw [final_error ran]
    unfold final attempt
    rw [ran]
    cases stop <;> rfl

theorem store_final_onStore (method : StoreM F (InMemoryBackend F) α) (handler : MemHandler F) :
    (final (onStore method) handler).store = final method handler.store := by
  unfold final onStore
  cases method handler.store <;> rfl

theorem readText_bind_ok (value : α)
    (next : Except ParseError α → HandlerM F (InMemoryBackend F) β) :
    readText (.ok value) >>= next = next (.ok value) := rfl

/-- The parts of inserting a node: the verifiers reject it, its ID is in use, or it is taken. -/
theorem attempt_insert (handler : MemHandler F) (node : Node F) :
    attempt (insert node) handler =
      match handler.store.rejection node with
      | some reason => .ok (.error (.invalidNode reason)) handler
      | none =>
        if (handler.store.nodeAt node.id).isSome then
          .ok (.error (.alreadyExists node.id.asStr)) handler
        else .ok (.ok ()) { handler with store := handler.store.admitted [node] } := by
  have ran := insert_run handler.store node
  cases rejected : handler.store.rejection node with
  | some reason =>
    rw [rejected] at ran
    exact attempt_fail ran
  | none =>
    rw [rejected] at ran
    dsimp only at ran ⊢
    split_ifs at ran ⊢
    · exact attempt_fail ran
    · exact attempt_ok ran

theorem attempt_insert_of_accepts {handler : MemHandler F} {node : Node F}
    (accepts : handler.store.Accepts [node]) :
    attempt (insert node) handler =
      .ok (.ok ()) { handler with store := handler.store.admitted [node] } := by
  rw [attempt_insert, accepts.verified node List.mem_cons_self,
    accepts.fresh node List.mem_cons_self]
  rfl

/-- A node that is not taken leaves the handler alone. -/
theorem attempt_insert_of_not_accepts {handler : MemHandler F} {node : Node F}
    (refused : ¬ handler.store.Accepts [node]) :
    ∃ error, attempt (insert node) handler = .ok (.error error) handler := by
  rw [attempt_insert]
  cases rejected : handler.store.rejection node with
  | some reason => exact ⟨_, rfl⟩
  | none =>
    dsimp only
    by_cases stored : (handler.store.nodeAt node.id).isSome
    · exact ⟨_, if_pos stored⟩
    · exact absurd ⟨by simpa using rejected, by simpa using stored, by simp⟩ refused

end Steps

/-! ### Answers -/

section Actions

variable (out : Outside D F) (req : JsonRpcRequest D)

/-- The content of a tool result. -/
theorem content_replyWith (fields : List (String × Json D)) :
    (replyWith out req (.object fields)).result.bind (·.get? "structuredContent") =
      some (.object fields) :=
  (Json.get?_object (by simp) (by simp) :
    (structuredResult out.doubleText (.object fields)).get? "structuredContent" = _)

/-- The action of a tool result. -/
theorem action?_replyWith {fields : List (String × Json D)}
    (distinct : (fields.map Prod.fst).Nodup) {action : String}
    (member : ("action", .str action) ∈ fields) :
    (replyWith out req (.object fields)).action? = some action := by
  unfold JsonRpcResponse.action?
  rw [content_replyWith, Option.bind_some, Json.get?_object distinct member]
  rfl

end Actions

/-! ### Calls of the store -/

section Calls

theorem final_insert (store : MemStore F) (node : Node F) :
    final (insert node) store = store.after (.insert node) := (final_bind_pure _ _ _).symm

theorem final_insertBatch (store : MemStore F) (nodes : List (Node F)) :
    final (insertBatch nodes) store = store.after (.insertBatch nodes) :=
  (final_bind_pure _ _ _).symm

theorem final_retractWithLimit (store : MemStore F) (id : NodeId) (maxNodes : Nat) :
    final (retractWithLimit id maxNodes) store = store.after (.retractWithLimit id maxNodes) :=
  (final_bind_pure _ _ _).symm

theorem final_retract (store : MemStore F) (id : NodeId) :
    final (retract id) store = store.after (.retractWithLimit id defaultMaxCascadeNodes) :=
  (final_bind_pure _ _ _).trans (final_retractWithLimit store id _)

theorem attempt_retract_ok {handler : MemHandler F} {id : NodeId} {result : RetractResult}
    {later : MemStore F}
    (ran : retractWithLimit id defaultMaxCascadeNodes handler.store = .ok result later) :
    attempt (retract id) handler = .ok (.ok result.retracted) { handler with store := later } := by
  refine attempt_ok ?_
  rw [retract, bind_ok ran]
  rfl

/-- A retraction leaves the store as the call of the store does; it fails only where no node is
stored. -/
theorem attempt_retract (handler : MemHandler F) (keyed : handler.store.Keyed) (id : NodeId) :
    ∃ result, attempt (retract id) handler = .ok result { handler with
        store := handler.store.after (.retractWithLimit id defaultMaxCascadeNodes) } ∧
      ∀ node, handler.store.nodeAt id = some node → ∃ retracted, result = .ok retracted := by
  have positive : 0 < defaultMaxCascadeNodes := by decide
  rw [← final_retractWithLimit]
  cases stored : handler.store.nodeAt id with
  | none =>
    have ran := retractWithLimit_notFound stored positive
    have fails : retract id handler.store =
        .error (.fail (.notFound id.asStr)) handler.store := by
      rw [retract, bind_error ran]
    rw [final_error ran]
    exact ⟨_, attempt_fail fails, fun _ found => absurd found.symm (Option.some_ne_none _)⟩
  | some node =>
    by_cases gone : node.status = .retracted
    · have ran := retractWithLimit_retracted stored gone positive
      rw [final_ok ran]
      exact ⟨_, attempt_retract_ok ran, fun _ _ => ⟨_, rfl⟩⟩
    · obtain ⟨depth, ran⟩ := retractWithLimit_run keyed stored gone positive
      rw [final_ok ran]
      exact ⟨_, attempt_retract_ok ran, fun _ _ => ⟨_, rfl⟩⟩

end Calls

section Reading

variable {α : Type}

/-! ### The read surface only reads -/

/-- A method that leaves the store as it was. -/
def Reads (method : StoreM F (InMemoryBackend F) α) : Prop :=
  Leaves (fun before after => after = before) method

theorem reads_of_ok {method : StoreM F (InMemoryBackend F) α} {found : MemStore F → α}
    (ran : ∀ store, method store = .ok (found store) store) : Reads method :=
  fun store => final_ok (ran store)

theorem reads_pure (value : α) : Reads (pure value : StoreM F (InMemoryBackend F) α) :=
  fun _ => rfl

theorem Reads.bind {β : Type} {first : StoreM F (InMemoryBackend F) α}
    {next : α → StoreM F (InMemoryBackend F) β} (here : Reads first)
    (rest : ∀ value, Reads (next value)) : Reads (first >>= next) :=
  Leaves.bind (fun one two => two.trans one) here rest

theorem reads_query [F32 F] (out : Outside D F) (q : Query) (options : QueryOptions F) :
    Reads (query out.hasher out.host q options : StoreM F (InMemoryBackend F) (ResultSet F)) := by
  intro store
  have ran := query_run (queryMatches_run store q options) out.hasher out.host
  unfold final
  rw [ran]
  cases arbitrate out.hasher out.host _ options.policy (some q.pattern) <;> rfl

theorem reads_toolQuery [F32 F] (out : Outside D F) (preferredForm : PreferredForm)
    (req : JsonRpcRequest D) (args : Json D) :
    Reads (toolQuery out preferredForm req args : StoreM F (InMemoryBackend F) _) := by
  unfold toolQuery
  cases out.queryParams args with
  | error message => exact reads_pure _
  | ok params =>
    dsimp only
    cases Parser.parsePredicate out.host params.query with
    | error stop => cases stop <;> exact fun _ => rfl
    | ok pattern => exact (reads_query out _ _).bind fun _ _ => rfl

theorem reads_toolSearch (out : Outside D F) (req : JsonRpcRequest D) (args : Json D) :
    Reads (toolSearch out req args : StoreM F (InMemoryBackend F) _) := by
  have listing : Reads (allActive : StoreM F (InMemoryBackend F) _) := fun _ => rfl
  unfold toolSearch
  cases out.searchParams args with
  | error message => exact reads_pure _
  | ok params =>
    refine listing.bind fun nodes => ?_
    dsimp only
    split
    · cases params.keyword with
      | none => exact reads_pure _
      | some keyword => exact .ite (reads_pure _) (reads_pure _)
    · exact reads_pure _
    · exact (reads_of_ok len_run).bind fun total => .ite (fun _ => rfl) (reads_pure _)
    · exact reads_pure _

theorem reads_handleReadResource (out : Outside D F) (req : JsonRpcRequest D) :
    Reads (handleReadResource out req : StoreM F (InMemoryBackend F) _) := by
  unfold handleReadResource
  cases req.params with
  | none => exact reads_pure _
  | some params =>
    dsimp only
    cases parseNodeResourceUri (((params.get? "uri").bind Json.asStr?).getD "") with
    | none => exact reads_pure _
    | some id =>
      refine (reads_of_ok fun store => readable_run store ⟨id⟩).bind fun found => ?_
      cases found <;> exact reads_pure _

theorem reads_toolLookup [F32 F] (out : Outside D F) (preferredForm : PreferredForm)
    (req : JsonRpcRequest D) (args : Json D) :
    Reads (toolLookup out preferredForm req args : StoreM F (InMemoryBackend F) _) := by
  unfold toolLookup
  cases out.lookupParams args with
  | error message => exact reads_pure _
  | ok params =>
    refine Reads.bind (reads_of_ok fun store => lookupIndex_run store .byEntity _) ?_
    exact fun _ _ => rfl

/-- No call of the read surface changes the store. -/
theorem reads_serve [F32 F] (out : Outside D F) (preferredForm : PreferredForm)
    (req : JsonRpcRequest D) (call : ReadCall D) :
    Reads (serve out preferredForm req call : StoreM F (InMemoryBackend F) _) := by
  cases call with
  | query args => exact reads_toolQuery out preferredForm req args
  | lookup args => exact reads_toolLookup out preferredForm req args
  | search args => exact reads_toolSearch out req args
  | listResources => exact fun _ => rfl
  | readResource => exact reads_handleReadResource out req

end Reading

/-! ### What a tool makes the store do -/

/-- The store after is the one before after some calls that offer only nodes of a kind. -/
def Performs (kind : Node F → Prop) (before after : MemHandler F) : Prop :=
  ∃ calls : List (Call F), after.store = before.store.run calls ∧
    ∀ call ∈ calls, ∀ node ∈ call.offered, kind node

variable {kind : Node F → Prop}

theorem Performs.refl (handler : MemHandler F) : Performs kind handler handler :=
  ⟨[], rfl, fun _ member => absurd member List.not_mem_nil⟩

theorem Performs.trans {first second third : MemHandler F} (here : Performs kind first second)
    (there : Performs kind second third) : Performs kind first third := by
  obtain ⟨calls, isSecond, ofKind⟩ := here
  obtain ⟨calls', isThird, ofKind'⟩ := there
  refine ⟨calls ++ calls', ?_, List.forall_mem_append.mpr ⟨ofKind, ofKind'⟩⟩
  rw [isThird, isSecond, FactumStore.run, FactumStore.run, FactumStore.run, List.foldl_append]

section Performs

variable {α : Type}

theorem performs_pure (value : α) :
    Leaves (Performs kind) (pure value : HandlerM F (InMemoryBackend F) α) :=
  .pure .refl value

theorem performs_bind {β : Type} {first : HandlerM F (InMemoryBackend F) α}
    {next : α → HandlerM F (InMemoryBackend F) β} (here : Leaves (Performs kind) first)
    (rest : ∀ value, Leaves (Performs kind) (next value)) :
    Leaves (Performs kind) (first >>= next) :=
  Leaves.bind .trans here rest

/-- A tried call of the store. -/
theorem performs_attempt {method : StoreM F (InMemoryBackend F) α} (call : Call F)
    (isCall : ∀ store : MemStore F, final method store = store.after call)
    (ofKind : ∀ node ∈ call.offered, kind node) : Leaves (Performs kind) (attempt method) := by
  intro handler
  refine ⟨[call], ?_, List.forall_mem_singleton.mpr ofKind⟩
  rw [store_final_attempt, isCall]
  rfl

/-- A method of the store that only reads. -/
theorem performs_onStore {method : StoreM F (InMemoryBackend F) α} (reads : Reads method) :
    Leaves (Performs kind) (onStore method) := by
  intro handler
  refine ⟨[], ?_, fun _ member => absurd member List.not_mem_nil⟩
  rw [store_final_onStore, reads]
  rfl

/-- A change of the review queue. -/
theorem performs_queue {update : MemHandler F → MemHandler F}
    (same : ∀ handler, (update handler).store = handler.store) :
    Leaves (Performs kind) (modify update : HandlerM F (InMemoryBackend F) PUnit) :=
  fun handler => ⟨[], same handler, fun _ member => absurd member List.not_mem_nil⟩

theorem performs_readText (parsed : Except (Stop ParseError) α) :
    Leaves (Performs kind) (readText parsed : HandlerM F (InMemoryBackend F) _) := by
  unfold readText
  split
  · exact performs_pure _
  · exact performs_pure _
  · exact .throw .refl _
  · exact .throw .refl _

/-- What a text is read as is what the parser returns. -/
theorem yields_readText (parsed : Except (Stop ParseError) α) :
    Yields (fun _ => True) (readText parsed : HandlerM F (InMemoryBackend F) _)
      fun read => ∀ value, read = .ok value → parsed = .ok value := by
  unfold readText
  split
  · exact .pure fun value same => congrArg _ (Except.ok.inj same)
  · exact .pure fun value impossible => by cases impossible
  · exact .throw _
  · exact .throw _

theorem performs_insert {node : Node F} (ofKind : kind node) :
    Leaves (Performs kind) (attempt (insert node) : HandlerM F (InMemoryBackend F) _) :=
  performs_attempt (.insert node) (fun store => final_insert store node)
    (List.forall_mem_singleton.mpr ofKind)

theorem performs_retract (id : NodeId) :
    Leaves (Performs kind) (attempt (retract id) : HandlerM F (InMemoryBackend F) _) :=
  performs_attempt (.retractWithLimit id defaultMaxCascadeNodes)
    (fun store => final_retract store id) fun _ member => absurd member List.not_mem_nil

end Performs

section Tools

variable [F32 F] (out : WriteOutside D F) (req : JsonRpcRequest D)

/-- The nodes that the parser returns are of a kind, under any identifier. -/
def ParsesAs (kind : Node F → Prop) : Prop :=
  ∀ text nodes, Parser.parse out.host text = .ok nodes → ∀ node ∈ nodes, ∀ id,
    kind { node with id := id }

variable {out} in
theorem ParsesAs.read (parsesAs : ParsesAs out kind) {text : String} {nodes : List (Node F)}
    (parsed : Parser.parse out.host text = .ok nodes) : ∀ node ∈ nodes, kind node :=
  fun node member => parsesAs text nodes parsed node member node.id

theorem performs_toolInsert (parsesAs : ParsesAs out kind) (args : Json D) :
    Leaves (Performs kind)
      (toolInsert out req args : HandlerM F (InMemoryBackend F) (JsonRpcResponse D)) := by
  unfold toolInsert
  cases out.insertParams args with
  | error message => exact performs_pure _
  | ok params =>
    refine (performs_readText _).bind_yields .trans (yields_readText _) fun read isRead => ?_
    split
    · exact performs_pure _
    · exact performs_pure _
    · have each := parsesAs _ _ (isRead _ rfl) _ List.mem_cons_self
      split
      · refine performs_bind (performs_insert (each _)) fun inserted => ?_
        split <;> exact performs_pure _
      · refine performs_bind (performs_insert (each _)) fun inserted => ?_
        split <;> exact performs_pure _

theorem performs_parseBatch : ∀ (texts : List String) (i : Nat) (allNodes : List (Node F)),
    Leaves (Performs kind) (parseBatch out i texts allNodes : HandlerM F (InMemoryBackend F) _)
  | [], _, _ => performs_pure _
  | text :: rest, i, allNodes => by
    refine performs_bind (performs_readText _) fun parsed => ?_
    split
    · exact performs_parseBatch rest _ _
    · exact performs_pure _

theorem yields_parseBatch (parsesAs : ParsesAs out kind) :
    ∀ (texts : List String) (i : Nat) (allNodes : List (Node F)), (∀ node ∈ allNodes, kind node) →
      Yields (fun _ => True) (parseBatch out i texts allNodes : HandlerM F (InMemoryBackend F) _)
        fun read => ∀ nodes, read = .ok nodes → ∀ node ∈ nodes, kind node
  | [], _, allNodes, ofKind => .pure fun nodes same => Except.ok.inj same ▸ ofKind
  | text :: rest, i, allNodes, ofKind => by
    refine (yields_readText _).bind fun read isRead => ?_
    split
    · exact yields_parseBatch parsesAs rest _ _
        (List.forall_mem_append.mpr ⟨ofKind, parsesAs.read (isRead _ rfl)⟩)
    · exact .pure fun nodes impossible => by cases impossible

theorem performs_toolInsertBatch (parsesAs : ParsesAs out kind) (args : Json D) :
    Leaves (Performs kind)
      (toolInsertBatch out req args : HandlerM F (InMemoryBackend F) (JsonRpcResponse D)) := by
  unfold toolInsertBatch
  cases out.insertBatchParams args with
  | error message => exact performs_pure _
  | ok params =>
    have nothing : ∀ node ∈ ([] : List (Node F)), kind node :=
      fun _ member => absurd member List.not_mem_nil
    refine (performs_parseBatch out _ _ _).bind_yields .trans
      (yields_parseBatch out parsesAs _ _ _ nothing) fun read isRead => ?_
    split
    · exact performs_pure _
    · refine .ite (performs_pure _) ?_
      refine performs_bind (performs_attempt (.insertBatch _)
        (fun store => final_insertBatch store _) (isRead _ rfl)) fun inserted => ?_
      split <;> exact performs_pure _

theorem performs_toolUpsert (parsesAs : ParsesAs out kind) (args : Json D) :
    Leaves (Performs kind)
      (toolUpsert out req args : HandlerM F (InMemoryBackend F) (JsonRpcResponse D)) := by
  unfold toolUpsert
  cases out.upsertParams args with
  | error message => exact performs_pure _
  | ok params =>
    refine (performs_readText _).bind_yields .trans (yields_readText _) fun read isRead => ?_
    split
    · exact performs_pure _
    · exact performs_pure _
    · have ofKind := parsesAs.read (isRead _ rfl) _ List.mem_cons_self
      refine performs_bind (performs_onStore fun store => final_ok (lookupIndex_run store _ _))
        fun found => ?_
      split
      · refine performs_bind (performs_insert ofKind) fun inserted => ?_
        split <;> exact performs_pure _
      · refine performs_bind (performs_insert ofKind) fun inserted => ?_
        split
        · refine performs_bind (performs_retract _) fun retracted => ?_
          split <;> exact performs_pure _
        · exact performs_pure _
      · exact performs_bind (performs_queue fun _ => rfl) fun _ => performs_pure _

theorem performs_checkBand (params : FactumAssertParams F) (nodeId : String) :
    Leaves (Performs kind) (checkBand out params nodeId : HandlerM F (InMemoryBackend F) Unit) := by
  unfold checkBand
  split
  · exact performs_pure _
  · exact performs_queue fun _ => rfl

theorem performs_toolAssert (args : Json D)
    (asserts : ∀ params nodeId predicate, kind (assertNode params nodeId predicate)) :
    Leaves (Performs kind)
      (toolAssert out req args : HandlerM F (InMemoryBackend F) (JsonRpcResponse D)) := by
  unfold toolAssert
  cases out.assertParams args with
  | error message => exact performs_pure _
  | ok params =>
    refine performs_bind (performs_readText _) fun parsed => ?_
    split
    · exact performs_pure _
    · refine performs_bind (performs_checkBand out _ _) fun _ => ?_
      refine performs_bind (performs_insert (asserts _ _ _)) fun inserted => ?_
      split
      · exact performs_pure _
      · exact performs_bind (performs_onStore fun store => final_ok (getById_run store _))
          fun _ => performs_pure _
      · exact performs_pure _

omit [F32 F] in
theorem performs_toolRetract (args : Json D) :
    Leaves (Performs kind)
      (toolRetract out req args : HandlerM F (InMemoryBackend F) (JsonRpcResponse D)) := by
  unfold toolRetract
  cases out.retractParams args with
  | error message => exact performs_pure _
  | ok params =>
    refine performs_bind (performs_attempt (.retractWithLimit _ _)
      (fun store => final_retractWithLimit store _ _)
      fun _ member => absurd member List.not_mem_nil) fun retracted => ?_
    split
    · refine performs_bind ?_ fun _ => performs_pure _
      exact .ite (performs_queue fun _ => rfl) (performs_pure _)
    · exact performs_pure _

omit [F32 F] in
theorem performs_retractEach : ∀ nodeIds retractedNodes errors : List String,
    Leaves (Performs kind)
      (retractEach nodeIds retractedNodes errors : HandlerM F (InMemoryBackend F) _)
  | [], _, _ => performs_pure _
  | nodeId :: rest, _, _ => by
    refine performs_bind (performs_retract _) fun retracted => ?_
    split
    · exact performs_retractEach rest _ _
    · exact performs_retractEach rest _ _

omit [F32 F] in
theorem performs_nodeDetails : ∀ nodeIds : List String,
    Leaves (Performs kind) (nodeDetails out nodeIds : HandlerM F (InMemoryBackend F) _)
  | [] => performs_pure _
  | nodeId :: rest => by
    refine performs_bind (performs_onStore fun store => final_ok (getById_run store _)) fun _ => ?_
    exact performs_bind (performs_nodeDetails rest) fun _ => performs_pure _

omit [F32 F] in
theorem performs_decideEvent (decision : ReviewQueue → UInt64 → Except String ReviewQueue)
    (eventId : UInt64) :
    Leaves (Performs kind) (decideEvent decision eventId : HandlerM F (InMemoryBackend F) _) := by
  refine .get_bind fun handler => ?_
  split
  · exact performs_pure _
  · exact performs_bind (performs_queue fun _ => rfl) fun _ => performs_pure _

omit [F32 F] in
theorem performs_toolReview (args : Json D) :
    Leaves (Performs kind)
      (toolReview out req args : HandlerM F (InMemoryBackend F) (JsonRpcResponse D)) := by
  unfold toolReview
  split
  · exact .get_bind fun _ => performs_pure _
  · exact .get_bind fun _ => performs_pure _
  · unfold reviewApprove
    split
    · exact performs_pure _
    · refine performs_bind (performs_decideEvent _ _) fun decided => ?_
      split <;> exact performs_pure _
  · unfold reviewReject
    split
    · exact performs_pure _
    · refine performs_bind (performs_decideEvent _ _) fun decided => ?_
      split
      · exact performs_pure _
      · refine .get_bind fun handler => ?_
        split
        · exact performs_pure _
        · exact performs_bind (performs_retractEach _ _ _) fun _ => performs_pure _
  · unfold reviewDetail
    split
    · exact performs_pure _
    · refine .get_bind fun handler => ?_
      split
      · exact performs_bind (performs_nodeDetails out _) fun _ => performs_pure _
      · exact performs_pure _
  · exact performs_pure _

/-- A call of the handler performs calls of the store that offer only parsed or asserted
nodes. -/
theorem performs_after (parsesAs : ParsesAs out kind) (handler : MemHandler F)
    (call : HandlerCall D) (asserts : ∀ args, call.tool = .assert args →
      ∀ params nodeId predicate, kind (assertNode params nodeId predicate)) :
    Performs kind handler (handler.after out call) := by
  obtain ⟨now, preferredForm, req, tool⟩ := call
  have performs : Leaves (Performs kind)
      (handle out ⟨now, preferredForm, req, tool⟩ : HandlerM F (InMemoryBackend F) _) := by
    cases tool with
    | read call => exact performs_onStore (reads_serve _ preferredForm req call)
    | insert args => exact performs_toolInsert { out with now := now } req parsesAs args
    | insertBatch args => exact performs_toolInsertBatch { out with now := now } req parsesAs args
    | upsert args => exact performs_toolUpsert { out with now := now } req parsesAs args
    | assert args => exact performs_toolAssert _ req args (asserts args rfl)
    | retract args => exact performs_toolRetract _ req args
    | review args => exact performs_toolReview _ req args
  exact performs handler

/-- A call of the handler leaves a reachable store when it finds one. -/
theorem reachable_after {handler : MemHandler F} (reachable : Reachable handler.store)
    (call : HandlerCall D) : Reachable (handler.after out call).store := by
  have performs : Performs (fun _ => True) handler (handler.after out call) :=
    performs_after out (fun _ _ _ _ _ _ => trivial) handler call fun _ _ _ _ _ => trivial
  obtain ⟨calls, isAfter, _⟩ := performs
  rw [isAfter]
  exact reachable.run calls

end Tools

/-! ### Properties of the calls of a run -/

section Calls

variable [F32 F] (out : WriteOutside D F)

/-- A property of every call of a run, with the handler before it. -/
def Along (property : MemHandler F → HandlerCall D → Prop) :
    MemHandler F → List (HandlerCall D) → Prop
  | _, [] => True
  | handler, call :: rest =>
    property handler call ∧ Along property (handler.after out call) rest

theorem along_iff_steps {property : MemHandler F → HandlerCall D → Prop}
    {calls : List (HandlerCall D)} {handler : MemHandler F} :
    Along out property handler calls ↔ Steps.Along (after out) property handler calls := by
  induction calls generalizing handler with
  | nil => exact Iff.rfl
  | cons call rest inductionHypothesis => exact and_congr_right fun _ => inductionHypothesis

/-- Two properties that are the same for each call on a reachable store are the same
throughout every run. -/
theorem along_iff {property good : MemHandler F → HandlerCall D → Prop}
    (step : ∀ handler call, Reachable handler.store → (property handler call ↔ good handler call))
    (calls : List (HandlerCall D)) {handler : MemHandler F} (reachable : Reachable handler.store) :
    Along out property handler calls ↔ Along out good handler calls := by
  rw [along_iff_steps, along_iff_steps]
  exact Steps.along_congr (fun _ call reachable => reachable_after out reachable call) step calls
    reachable

end Calls

end McpHandler

end Factum
