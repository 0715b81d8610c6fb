/-
This file is about whether an upsert leaves its new fact live.

An upsert inserts the new node and then retracts the one that it replaces, with everything
that is derived from it. When the new node is itself derived from the old one, directly or
through others, the cascade comes back to it and withdraws it, and the reply still says
that the node was updated. The new node escapes only when so many others come before it,
in the order in which nodes derive from the old one, that the room of the cascade is used
up. Otherwise it stays active and the old one is retracted.
-/

import Factum.HandlerRuns
import Factum.Parsed
import Factum.Library.FirstPaths

namespace Factum

open Stateful

variable {D F : Type}

namespace FactumStore

/-! ### The place of a new node among what derives from an old one -/

/-- The nodes that depend on this one when a new node is stored after the others, once for each
time that they name it. -/
def dependentsWith (store : MemStore F) (new : Node F) (id : NodeId) : List NodeId :=
  store.dependents id ++ (new.deps.filter (· = id)).map fun _ => new.id

/-- Whether this node is derived and active when a new node is stored too. -/
def isSupportedWith (store : MemStore F) (new : Node F) (id : NodeId) : Bool :=
  if id = new.id then new.isActiveDerived else store.isSupported id

/-- The new node derives from the old one, directly or through others, and fewer nodes come
before it than a cascade has room for. -/
def Swallows (store : MemStore F) (old new : Node F) : Prop :=
  (∃ turns, Marking.Path (store.dependentsWith new) (store.isSupportedWith new) ∅ old.id turns
    new.id) ∧
  ∀ earlier : List NodeId, earlier.Nodup →
    (∀ id ∈ earlier, Marking.Before (store.dependentsWith new) (store.isSupportedWith new)
      old.id id new.id) → earlier.length < defaultMaxCascadeNodes

theorem listOf_foldl_pushTo (deps : List NodeId) (new id : NodeId) :
    ∀ depsRev, Hash.listOf
        (deps.foldl (fun depsRev dep => Hash.pushTo depsRev dep new) depsRev) id =
      Hash.listOf depsRev id ++ (deps.filter (· = id)).map fun _ => new := by
  induction deps with
  | nil => exact fun depsRev => (List.append_nil _).symm
  | cons dep rest inductionHypothesis =>
    intro depsRev
    rw [List.foldl_cons, inductionHypothesis, Hash.listOf_pushTo]
    by_cases same : id = dep
    · obtain rfl := same
      rw [if_pos rfl, List.filter_cons_of_pos (by simp), List.map_cons, List.append_assoc]
      rfl
    · rw [if_neg same, List.filter_cons_of_neg (by simpa using Ne.symm same)]

theorem dependents_admitted (store : MemStore F) (new : Node F) :
    (store.admitted [new]).dependents = store.dependentsWith new := by
  funext id
  rw [dependents, depsRev_admitted]
  exact listOf_foldl_pushTo new.deps new.id id store.depsRev

theorem isSupported_admitted {store : MemStore F} {new : Node F}
    (accepts : store.Accepts [new]) :
    (store.admitted [new]).isSupported = store.isSupportedWith new := by
  funext id
  have stored := nodeAt_admitted_eq_some accepts id
  simp only [List.mem_singleton] at stored
  unfold isSupportedWith
  split_ifs with isNew
  · exact isSupported_of_stored ((stored new).mpr (.inl ⟨rfl, isNew.symm⟩))
  · unfold isSupported
    cases here : store.nodeAt id with
    | none =>
      cases later : (store.admitted [new]).nodeAt id with
      | none => rfl
      | some node =>
        rcases (stored node).mp later with ⟨rfl, same⟩ | before
        · exact absurd same.symm isNew
        · rw [here] at before
          cases before
    | some node => rw [(stored node).mpr (.inr here)]

/-- The new node is swallowed when the cascade of the old one, in the store that has both, comes
to it. -/
theorem swallows_iff {store : MemStore F} {old new : Node F} (accepts : store.Accepts [new]) :
    store.Swallows old new ↔
      new.id ∈ ((store.admitted [new]).cascadeTrace old.id defaultMaxCascadeNodes).marked := by
  rw [Swallows, cascadeTrace, dependents_admitted, isSupported_admitted accepts]
  exact (Marking.mem_visit_iff old.id new.id (by decide) (Nat.le_succ _)).symm

/-- Only a node that is derived is swallowed. -/
theorem derived_of_swallows {store : MemStore F} {old new : Node F}
    (accepts : store.Accepts [new]) (stored : store.nodeAt old.id = some old)
    (swallows : store.Swallows old new) : new.isActiveDerived = true := by
  have notOld : new.id ≠ old.id := by
    intro same
    have fresh := accepts.fresh new List.mem_cons_self
    rw [same, stored] at fresh
    cases fresh
  obtain ⟨node, isStored, activeDerived⟩ := exists_of_mem_fullCascade
    (cascadeTrace_subset _ old.id (by decide) new.id ((swallows_iff accepts).mp swallows)) notOld
  have isNew := (nodeAt_admitted_eq_some accepts new.id new).mpr
    (.inl ⟨List.mem_cons_self, rfl⟩)
  rw [isNew] at isStored
  cases isStored
  exact activeDerived

theorem edge_of_admitted {store : MemStore F} (consistent : store.Consistent) {new : Node F}
    (accepts : store.Accepts [new]) (dep id : NodeId) :
    Marking.Edge (store.admitted [new]).dependents (store.admitted [new]).isSupported dep id ↔
      Marking.Edge store.dependents store.isSupported dep id ∨
        id = new.id ∧ new.isActiveDerived = true ∧ dep ∈ new.deps := by
  rw [edge_iff (consistent.admitted accepts), edge_iff consistent]
  simp only [nodeAt_admitted_eq_some accepts, List.mem_singleton]
  constructor
  · rintro ⟨node, ⟨rfl, rfl⟩ | stored, activeDerived, named⟩
    · exact .inr ⟨rfl, activeDerived, named⟩
    · exact .inl ⟨node, stored, activeDerived, named⟩
  · rintro (⟨node, stored, activeDerived, named⟩ | ⟨rfl, activeDerived, named⟩)
    · exact ⟨node, .inr stored, activeDerived, named⟩
    · exact ⟨new, .inl ⟨rfl, rfl⟩, activeDerived, named⟩

/-- A cascade that is not cut swallows the new node exactly when this one is derived and depends
on a node that the cascade withdraws without it. -/
theorem swallows_iff_of_complete {store : MemStore F} (consistent : store.Consistent)
    {old new : Node F} (accepts : store.Accepts [new]) (stored : store.nodeAt old.id = some old)
    (complete : ((store.admitted [new]).cascadeTrace old.id defaultMaxCascadeNodes).truncated =
      false) :
    store.Swallows old new ↔
      new.isActiveDerived = true ∧ ∃ dep ∈ new.deps, dep ∈ store.fullCascade old.id := by
  have edges := edge_of_admitted consistent accepts
  refine (swallows_iff accepts).trans
    ((mem_cascadeTrace_iff _ (by decide) complete new.id).trans ?_)
  constructor
  · intro path
    -- where the path first comes to the new node
    have first : ∀ id ∈ (store.admitted [new]).fullCascade old.id,
        id ∈ store.fullCascade old.id ∨
          new.isActiveDerived = true ∧ ∃ dep ∈ new.deps, dep ∈ store.fullCascade old.id := by
      intro id path
      induction path with
      | refl => exact .inl .refl
      | @tail dep id _ edge inductionHypothesis =>
        refine inductionHypothesis.elim (fun before => ?_) .inr
        rcases (edges dep id).mp edge with earlier | ⟨_, activeDerived, named⟩
        · exact .inl (.tail before earlier)
        · exact .inr ⟨activeDerived, dep, named, before⟩
    refine (first new.id path).resolve_left fun before => ?_
    have fresh := accepts.fresh new List.mem_cons_self
    have notOld : new.id ≠ old.id := by
      intro same
      rw [same, stored] at fresh
      cases fresh
    obtain ⟨node, isStored, _⟩ := exists_of_mem_fullCascade before notOld
    rw [fresh] at isStored
    cases isStored
  · rintro ⟨activeDerived, dep, named, path⟩
    have path' := Marking.closure_mono _ _ (fun x y edge => (edges x y).mpr (.inl edge)) old.id path
    exact .tail path' ((edges dep new.id).mpr (.inr ⟨rfl, activeDerived, named⟩))

end FactumStore

namespace McpHandler

open FactumStore

/-! ### What an upsert does -/

/-- The nodes that an upsert finds to replace. -/
def replacedNodes (store : MemStore F) (params : FactumUpsertParams) : List (Node F) :=
  ((store.scan .byEntity (Utf8.ofString (upsertEntity params).asStr)).filterMap
    store.activeAt).filter (isReplaced params)

/-- The arguments of an upsert are read as these parameters, and their text starts with this
node. -/
structure UpsertReads [F32 F] (out : WriteOutside D F) (args : Json D)
    (params : FactumUpsertParams) (node : Node F) : Prop where
  decoded : out.upsertParams args = .ok params
  parsed : ∃ rest, Parser.parse out.host params.node = .ok (node :: rest)

/-- The replaced node is stored and active. -/
theorem stored_of_replaced {store : MemStore F} (keyed : store.Keyed)
    {params : FactumUpsertParams} {old : Node F} (found : old ∈ replacedNodes store params) :
    store.nodeAt old.id = some old ∧ old.status = .active := by
  obtain ⟨id, _, isOld⟩ := List.mem_filterMap.mp (List.mem_of_mem_filter found)
  obtain ⟨stored, active⟩ := (activeAt_eq_some store id old).mp isOld
  exact ⟨keyed id old stored ▸ stored, active⟩

section Runs

variable [F32 F] {out : WriteOutside D F} {req : JsonRpcRequest D} {args : Json D}
  {params : FactumUpsertParams} {node : Node F}

/-- What an upsert whose new node is read may do, with its reply and the handler after it. -/
inductive Upserted (handler : MemHandler F) (params : FactumUpsertParams) (node : Node F) :
    JsonRpcResponse D → MemHandler F → Prop
  | refused {reply : JsonRpcResponse D} (noAction : reply.action? = none)
      (refuses : ¬ handler.store.Accepts [node]) :
      Upserted handler params node reply handler
  | inserted {reply : JsonRpcResponse D} (action : reply.action? = some "inserted")
      (accepts : handler.store.Accepts [node]) (none_ : replacedNodes handler.store params = []) :
      Upserted handler params node reply { handler with store := handler.store.admitted [node] }
  | updated {reply : JsonRpcResponse D} {old : Node F} (action : reply.action? = some "updated")
      (accepts : handler.store.Accepts [node])
      (found : replacedNodes handler.store params = [old]) :
      Upserted handler params node reply { handler with
        store := (handler.store.admitted [node]).after
          (.retractWithLimit old.id defaultMaxCascadeNodes) }
  | ambiguous {reply : JsonRpcResponse D} (queue : ReviewQueue)
      (action : reply.action? = some "ambiguous")
      (several : 2 ≤ (replacedNodes handler.store params).length) :
      Upserted handler params node reply { handler with reviewQueue := queue }

omit [F32 F] in
theorem upserted_none (handler : MemHandler F)
    (none_ : replacedNodes handler.store params = []) :
    ∃ reply later, upsertNone out req node handler = .ok reply later ∧
      Upserted handler params node reply later := by
  by_cases accepts : handler.store.Accepts [node]
  · refine ⟨_, _, bind_ok (attempt_insert_of_accepts accepts), .inserted ?_ accepts none_⟩
    exact action?_replyWith _ req (by simp) (by simp)
  · obtain ⟨error, ran⟩ := attempt_insert_of_not_accepts accepts
    exact ⟨_, _, bind_ok ran, .refused rfl accepts⟩

omit [F32 F] in
theorem upserted_one {handler : MemHandler F} (consistent : handler.store.Consistent)
    {old : Node F} (found : replacedNodes handler.store params = [old]) :
    ∃ reply later, upsertOne out req node old handler = .ok reply later ∧
      Upserted handler params node reply later := by
  by_cases accepts : handler.store.Accepts [node]
  · have isOld : old ∈ replacedNodes handler.store params := found ▸ List.mem_cons_self
    obtain ⟨stored, active⟩ := stored_of_replaced consistent.keyed isOld
    have storedOld := (nodeAt_admitted_eq_some accepts old.id old).mpr (.inr stored)
    obtain ⟨result, ran, succeeds⟩ :=
      attempt_retract { handler with store := handler.store.admitted [node] }
        (consistent.admitted accepts).keyed old.id
    obtain ⟨retracted, rfl⟩ := succeeds old storedOld
    refine ⟨_, _, (bind_ok (attempt_insert_of_accepts accepts)).trans (bind_ok ran),
      .updated ?_ accepts found⟩
    exact action?_replyWith _ req (by simp) (by simp)
  · obtain ⟨error, ran⟩ := attempt_insert_of_not_accepts accepts
    exact ⟨_, _, bind_ok ran, .refused rfl accepts⟩

/-- The time of a call does not matter to what it reads. -/
theorem UpsertReads.at_ (reads : UpsertReads out args params node) (now : DateTime) :
    UpsertReads { out with now := now } args params node := ⟨reads.1, reads.2⟩

/-- What an upsert does with the nodes that it finds to replace. -/
def upsertFound (out : WriteOutside D F) (req : JsonRpcRequest D) (node : Node F) :
    List (Node F) → HandlerM F (InMemoryBackend F) (JsonRpcResponse D)
  | [] => upsertNone out req node
  | [old] => upsertOne out req node old
  | candidates => upsertMany out req candidates

/-- What an upsert does, by the number of nodes that it finds to replace. -/
theorem upserted_of_reads (req : JsonRpcRequest D) (reads : UpsertReads out args params node)
    {handler : MemHandler F}
    (consistent : handler.store.Consistent) :
    ∃ reply later, toolUpsert out req args handler = .ok reply later ∧
      Upserted handler params node reply later := by
  obtain ⟨decoded, rest, parsed⟩ := reads
  have ran : toolUpsert out req args handler =
      upsertFound out req node (replacedNodes handler.store params) handler := by
    unfold toolUpsert
    rw [decoded]
    dsimp only
    rw [parsed, readText_bind_ok]
    have found := lookupIndex_run handler.store .byEntity (upsertEntity params).asStr
    exact bind_ok (onStore_ok found)
  rw [ran]
  cases found : replacedNodes handler.store params with
  | nil => exact upserted_none handler found
  | cons old others =>
    cases others with
    | nil => exact upserted_one consistent found
    | cons other others =>
      refine ⟨_, _, rfl, .ambiguous _ ?_ ?_⟩
      · exact action?_replyWith _ req (by simp) (by simp)
      · rw [found]
        simp

/-- An upsert whose arguments are not read says nothing of an action and changes nothing. -/
theorem toolUpsert_unread (unread : ∀ params node, ¬ UpsertReads out args params node)
    (handler : MemHandler F) :
    final (toolUpsert out req args) handler = handler ∧
      ∀ reply, answer (toolUpsert out req args) handler = .ok reply → reply.action? = none := by
  unfold toolUpsert
  cases decoded : out.upsertParams args with
  | error message =>
    refine ⟨rfl, ?_⟩
    rintro _ ⟨⟩
    rfl
  | ok params =>
    dsimp only
    cases parsed : Parser.parse out.host params.node with
    | error stop =>
      cases stop with
      | fail error =>
        refine ⟨rfl, ?_⟩
        rintro _ ⟨⟩
        rfl
      | panic => exact ⟨rfl, nofun⟩
      | fuel => exact ⟨rfl, nofun⟩
    | ok nodes =>
      cases nodes with
      | nil =>
        refine ⟨rfl, ?_⟩
        rintro _ ⟨⟩
        rfl
      | cons node rest => exact absurd ⟨decoded, rest, parsed⟩ (unread params node)

end Runs

/-! ### The new fact stays live -/

section Live

variable [F32 F] (out : WriteOutside D F)

/-- An upsert that replies that it inserted or updated leaves its node active, and where it
updated the replaced node is retracted. -/
def UpsertLive (handler : MemHandler F) (call : HandlerCall D) : Prop :=
  ∀ args, call.tool = .upsert args → ∀ reply, handler.response out call = .ok reply →
    reply.action? = some "inserted" ∨ reply.action? = some "updated" →
      ∃ params node, UpsertReads out args params node ∧
        (∃ stored, (handler.after out call).store.nodeAt node.id = some stored ∧
          stored.status = .active) ∧
        (reply.action? = some "updated" → ∃ old, replacedNodes handler.store params = [old] ∧
          ∃ gone, (handler.after out call).store.nodeAt old.id = some gone ∧
            gone.status = .retracted)

/-- The new node of an upsert that replaces a node does not derive from it, or too many nodes
come before it. -/
def UpsertSpares (handler : MemHandler F) (call : HandlerCall D) : Prop :=
  ∀ args, call.tool = .upsert args → ∀ params node old, UpsertReads out args params node →
    handler.store.Accepts [node] → replacedNodes handler.store params = [old] →
      ¬ handler.store.Swallows old node

variable {out}

/-- Nodes are read active. -/
theorem UpsertReads.active {args : Json D} {params : FactumUpsertParams} {node : Node F}
    (reads : UpsertReads out args params node) : node.status = .active := by
  obtain ⟨_, rest, parsed⟩ := reads
  exact (Parser.readsAs_of_parse out.host parsed node List.mem_cons_self).2

/-- The parameters and the new node of an upsert are determined. -/
theorem UpsertReads.unique {args : Json D} {params params' : FactumUpsertParams}
    {node node' : Node F} (reads : UpsertReads out args params node)
    (reads' : UpsertReads out args params' node') : params = params' ∧ node = node' := by
  obtain ⟨decoded, rest, parsed⟩ := reads
  obtain ⟨decoded', rest', parsed'⟩ := reads'
  obtain rfl : params = params' := Except.ok.inj (decoded.symm.trans decoded')
  exact ⟨rfl, (List.cons.inj (Except.ok.inj (parsed.symm.trans parsed'))).1⟩

omit [F32 F] in
/-- After the cascade of the replaced node this one is retracted, and the new one with it if the
cascade swallows it. -/
theorem nodeAt_after_replacement {store : MemStore F} (consistent : store.Consistent)
    {params : FactumUpsertParams} {node old : Node F} (accepts : store.Accepts [node])
    (found : replacedNodes store params = [old]) :
    let later := (store.admitted [node]).after (.retractWithLimit old.id defaultMaxCascadeNodes)
    later.nodeAt old.id = some old.retract ∧
      (store.Swallows old node → later.nodeAt node.id = some node.retract) ∧
      (¬ store.Swallows old node → later.nodeAt node.id = some node) := by
  have isOld : old ∈ replacedNodes store params := found ▸ List.mem_cons_self
  obtain ⟨stored, active⟩ := stored_of_replaced consistent.keyed isOld
  have admits := nodeAt_admitted_eq_some accepts
  have storedOld := (admits old.id old).mpr (.inr stored)
  have storedNode := (admits node.id node).mpr (.inl ⟨List.mem_cons_self, rfl⟩)
  have keyed := (consistent.admitted accepts).keyed
  have retracts : (store.admitted [node]).Retracts old.id defaultMaxCascadeNodes :=
    ⟨by decide, old, storedOld, by simp [active]⟩
  have nodeAtLater := nodeAt_retractAll
    ((store.admitted [node]).cascadeTrace old.id defaultMaxCascadeNodes).marked keyed
  dsimp only
  rw [after_retract_of_retracts keyed retracts]
  rw [swallows_iff accepts]
  refine ⟨(nodeAtLater old.id).trans ?_, fun swallows => (nodeAtLater node.id).trans ?_,
    fun spared => (nodeAtLater node.id).trans ?_⟩
  · rw [if_pos (root_mem_cascadeTrace _ _ _), storedOld]
    rfl
  · rw [if_pos swallows, storedNode]
    rfl
  · rw [if_neg spared, storedNode]

/-- One upsert leaves its fact live exactly when it is spared. -/
theorem upsertLive_iff {handler : MemHandler F} (reachable : Reachable handler.store)
    (call : HandlerCall D) : UpsertLive out handler call ↔ UpsertSpares out handler call := by
  have consistent := reachable.consistent
  obtain ⟨now, preferredForm, req, tool⟩ := call
  have whole : ∀ {args params node}, UpsertReads out args params node → ∃ reply later,
      handle out ⟨now, preferredForm, req, .upsert args⟩ handler = .ok reply later ∧
        Upserted handler params node reply later :=
    fun reads => upserted_of_reads req (reads.at_ now) consistent
  constructor
  · rintro live args rfl params node old reads accepts found swallows
    obtain ⟨reply, later, ran, upserted⟩ := whole reads
    cases upserted with
    | refused noAction refuses => exact refuses accepts
    | inserted action _ none_ => simp [found] at none_
    | ambiguous queue action several => simp [found] at several
    | @updated old' action _ found' =>
      obtain rfl : old = old' := by simpa [found] using found'
      obtain ⟨params', node', reads', ⟨stored, isStored, active⟩, _⟩ :=
        live args rfl reply (answer_ok ran) (.inr action)
      obtain ⟨rfl, rfl⟩ := reads.unique reads'
      have isLater := (nodeAt_after_replacement consistent accepts found).2.1 swallows
      rw [after, final_ok ran] at isStored
      cases isLater.symm.trans isStored
      cases active
  · rintro spares args rfl reply replied acted
    by_cases read : ∃ params node, UpsertReads out args params node
    · obtain ⟨params, node, reads⟩ := read
      obtain ⟨reply', later, ran, upserted⟩ := whole reads
      obtain rfl : reply' = reply := Except.ok.inj ((answer_ok ran).symm.trans replied)
      refine ⟨params, node, reads, ?_⟩
      rw [after, final_ok ran]
      cases upserted with
      | refused noAction => simp [noAction] at acted
      | ambiguous queue action => simp [action] at acted
      | inserted action accepts =>
        have stored := (nodeAt_admitted_eq_some accepts node.id node).mpr
          (.inl ⟨List.mem_cons_self, rfl⟩)
        refine ⟨⟨node, stored, reads.active⟩, fun updated => ?_⟩
        simp [action] at updated
      | @updated old action accepts found =>
        obtain ⟨isOld, _, spared⟩ := nodeAt_after_replacement consistent accepts found
        have isNode := spared (spares args rfl params node old reads accepts found)
        exact ⟨⟨node, isNode, reads.active⟩, fun _ => ⟨old, found, _, isOld, rfl⟩⟩
    · have unread : ∀ params node, ¬ UpsertReads { out with now := now } args params node :=
        fun params node reads => read ⟨params, node, reads.1, reads.2⟩
      have noAction := (toolUpsert_unread unread handler).2 reply replied
      simp [noAction] at acted

/-- Throughout a run of the handler every upsert leaves its fact live exactly when its new node
does not derive from the one that it replaces, or more nodes come before it than a cascade has
room for. -/
theorem upserts_leave_live_iff {handler : MemHandler F} (reachable : Reachable handler.store)
    (calls : List (HandlerCall D)) :
    Along out (UpsertLive out) handler calls ↔ Along out (UpsertSpares out) handler calls :=
  along_iff out (fun _ call reachable => upsertLive_iff reachable call) calls reachable

end Live

/-! ### A conclusion that replaces its premise -/

/-- A text field of the arguments of a tool. -/
def textArg (args : Json Unit) (name : String) : Except String String :=
  match (args.get? name).bind Json.asStr? with
  | some text => .ok text
  | none => .error ("missing field " ++ name)

/-- A field of the arguments that is a whole number. -/
def intArg (args : Json Unit) (name : String) : Option Int :=
  match args.get? name with
  | some (.int n) => some n
  | _ => none

/-- Libraries for write tools on texts without numbers. -/
def sampleWrites : WriteOutside Unit Rat where
  toOutside := sampleOutside
  defaultHash := fun text => UInt64.ofNat text.length
  f32Fixed := fun _ => "0.00"
  scoreJson := fun _ => .float ()
  insertParams := fun args => do return ⟨← textArg args "node"⟩
  insertBatchParams := fun args => do return ⟨[← textArg args "nodes"]⟩
  upsertParams := fun args => do
    return ⟨← textArg args "node", ← textArg args "entity", ← textArg args "predicate"⟩
  assertParams := fun args => do
    return ⟨← textArg args "predicate", (textArg args "by").toOption,
      (intArg args "confidence").map fun n => n, none⟩
  retractParams := fun args => do
    return ⟨← textArg args "node_id", (intArg args "max_cascade_nodes").map Int.toNat⟩

/-- A call of a tool at the start of the epoch. -/
def sampleCall (tool : ToolCall Unit) : HandlerCall Unit :=
  ⟨⟨0, 0, DateTime.zero_inRange⟩, .canonical, firstRequest, tool⟩

/-- A handler over the store with the premise. -/
def premiseHandler : MemHandler Rat := .new (blank.run [.insert premise])

theorem reachable_premiseHandler : Reachable premiseHandler.store := (Reachable.empty _ _ _).run _

/-- The arguments of an upsert that replaces the premise with this node. -/
def replacementArgs (text : String) : Json Unit :=
  .obj [("node", .str text), ("entity", .str "A"), ("predicate", .str "located-in")]

/-- A new place, derived from the old one. -/
def derivedPlace : Node Rat :=
  { Node.new "n2" ⟨.name "located-in", [.ent ⟨"A"⟩, .ent ⟨"C"⟩], []⟩ with
    provenance := .derived ⟨"n1"⟩ ⟨"r1"⟩
    deps := [⟨"n1"⟩] }

/-- The text of the derived place. -/
def derivedPlaceText : String :=
  "(node n2 :pred (located-in @A @C) :src (derived n1 r1) :deps [n1])"

theorem upsertReads_derivedPlace :
    UpsertReads sampleWrites (replacementArgs derivedPlaceText)
      ⟨derivedPlaceText, "A", "located-in"⟩ derivedPlace where
  decoded := rfl
  parsed := ⟨[], by decide +kernel⟩

/-- The new place is withdrawn with the old one, and the reply says that it was updated. -/
theorem upsert_swallows_derivedPlace :
    ∃ handler : MemHandler Rat, Reachable handler.store ∧
      ¬ UpsertLive sampleWrites handler
        (sampleCall (.upsert (replacementArgs derivedPlaceText))) := by
  refine ⟨premiseHandler, reachable_premiseHandler, fun live => ?_⟩
  have spares := (upsertLive_iff reachable_premiseHandler _).mp live
  have accepts : premiseHandler.store.Accepts [derivedPlace] :=
    (accepts_iff _ _).mpr (by decide +kernel)
  exact spares _ rfl _ derivedPlace premise upsertReads_derivedPlace accepts (by decide +kernel)
    ((swallows_iff accepts).mpr (by decide +kernel))

/-- A new place that is asserted. -/
def newPlace : Node Rat := Node.new "n2" ⟨.name "located-in", [.ent ⟨"A"⟩, .ent ⟨"C"⟩], []⟩

/-- The text of the asserted place. -/
def newPlaceText : String := "(node n2 :pred (located-in @A @C))"

/-- An asserted new place stays active when it replaces the old one. -/
theorem upserts_leave_live_iff_newPlace :
    Along sampleWrites (UpsertLive sampleWrites) premiseHandler
      [sampleCall (.upsert (replacementArgs newPlaceText))] := by
  refine (upserts_leave_live_iff reachable_premiseHandler _).mpr ⟨?_, trivial⟩
  rintro args isCall params node old reads accepts found swallows
  cases isCall
  have readsNew : UpsertReads sampleWrites (replacementArgs newPlaceText)
      ⟨newPlaceText, "A", "located-in"⟩ newPlace := ⟨rfl, [], by decide +kernel⟩
  obtain ⟨rfl, rfl⟩ := readsNew.unique reads
  have isOld : old ∈ replacedNodes premiseHandler.store _ := found ▸ List.mem_cons_self
  have stored := (stored_of_replaced reachable_premiseHandler.consistent.keyed isOld).1
  exact absurd (derived_of_swallows accepts stored swallows) (by decide)

end McpHandler

end Factum
