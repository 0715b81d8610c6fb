/-
This file is about sessions of the server over the stdio transport.

From an empty in-memory store no request makes the server panic: every text is read to an
answer, every call of the store comes to one, and arbitration finds a winner because every
stored authority is a score. So a session writes one line for each line that asks for an
answer, in their order, and each answer to a request is a response of this version under the
id of the request, with a result or an error. What asks for nothing, and what is refused as
no request, leaves the server as it was.

This is about the program with arithmetic that wraps, as a release build has it, and with
room for as many nested calls as a cascade is deep. All that is asked of the numbers is that
some of a few scores ties with the greatest of them, as it does for exact numbers and for
those in single precision.
-/

import Factum.Codec
import Factum.Scores
import Factum.Settled
import Factum.Total
import Factum.Transcript

namespace Factum

open Stateful

/-! ### Arbitration -/

/-- Some of a few scores ties with the greatest of them. -/
def ScoresLead (F : Type) [F32 F] : Prop :=
  ∀ scores : List F, scores ≠ [] → (∀ v ∈ scores, F32.inUnit v = true) →
    ∃ v ∈ scores, authorityTies v (greatest scores) = true

section Arbitration

variable {F : Type} [F32 F]

/-- Scores lead when a maximum is one of two numbers, a number ties with itself, and the maximum
of zero and a score is the score. -/
theorem scoresLead_of (picks : ∀ a b : F, F32.max a b = a ∨ F32.max a b = b)
    (self : ∀ a : F, authorityTies a a = true)
    (zero : ∀ a : F, F32.inUnit a = true → F32.max (F32.lit 0 0) a = a) : ScoresLead F := by
  have picked : ∀ (rest : List F) (best : F), rest.foldl F32.max best ∈ best :: rest := by
    intro rest
    induction rest with
    | nil => exact fun best => List.mem_cons_self
    | cons next rest inductionHypothesis =>
      intro best
      rw [List.foldl_cons]
      rcases List.mem_cons.mp (inductionHypothesis (F32.max best next)) with isBest | later
      · rw [isBest]
        rcases picks best next with isBest | isNext
        · rw [isBest]
          exact List.mem_cons_self
        · rw [isNext]
          exact List.mem_cons_of_mem _ List.mem_cons_self
      · exact List.mem_cons_of_mem _ (List.mem_cons_of_mem _ later)
  intro scores nonempty inUnit
  cases scores with
  | nil => exact absurd rfl nonempty
  | cons first rest =>
    have isGreatest : greatest (first :: rest) =
        rest.foldl F32.max (F32.max (F32.lit 0 0) first) := rfl
    rcases List.mem_cons.mp (picked rest (F32.max (F32.lit 0 0) first)) with isStart | later
    · refine ⟨first, List.mem_cons_self, ?_⟩
      rw [isGreatest, isStart, zero first (inUnit first List.mem_cons_self)]
      exact self first
    · exact ⟨_, List.mem_cons_of_mem _ later, by rw [isGreatest]; exact self _⟩

/-- Arbitration over a query pattern comes to an answer where every authority is a score. -/
theorem arbitrate_isSome (leads : ScoresLead F) (hasher : Hash.Order String) (host : Host F)
    {found : List (QueryResult F)}
    (inUnit : ∀ result ∈ found, F32.inUnit result.node.authority.value = true)
    (policy : ConflictPolicy F) (pattern : Predicate) :
    ∃ answer, arbitrate hasher host found policy (some pattern) = some answer := by
  cases isAnswer : arbitrate hasher host found policy (some pattern) with
  | some answer => exact ⟨answer, rfl⟩
  | none =>
    -- it would stop where none of several authorities ties with the greatest
    obtain ⟨_, result, member, _, noTop⟩ := stops_of_arbitrate isAnswer
    have own : result ∈ rivals host found result := (mem_rivals_iff host).mpr ⟨member, rfl⟩
    have scores : ∀ v ∈ (rivals host found result).map (·.node.authority.value),
        F32.inUnit v = true := by
      intro v isScore
      obtain ⟨rival, isRival, rfl⟩ := List.mem_map.mp isScore
      exact inUnit rival ((mem_rivals_iff host).mp isRival).1
    obtain ⟨v, isScore, ties⟩ := leads _ (List.ne_nil_of_mem (List.mem_map_of_mem own)) scores
    obtain ⟨rival, isRival, rfl⟩ := List.mem_map.mp isScore
    have top : rival ∈ topOf (rivals host found result) := List.mem_filter.mpr ⟨isRival, ties⟩
    rw [noTop] at top
    cases top

end Arbitration

/-- Exact scores lead. -/
theorem scoresLead_rat : ScoresLead ℚ := by
  refine scoresLead_of (fun a b => ?_) (fun a => ?_) fun a inUnit => ?_
  · exact (ite_eq_or_eq (a ≤ b) b a).symm
  · simp [authorityTies, F32.lt, F32.abs, F32.sub, F32.lit, Rat.mkRat_eq_div]
  · refine if_pos ?_
    exact of_decide_eq_true (Bool.and_eq_true_iff.mp inUnit).1

/-- Scores in single precision lead. -/
theorem scoresLead_binary32 : ScoresLead Binary32 := by
  have positive : 0 < Binary32.rounded (1 / 1000) := by
    have near := abs_le.mp (Binary32.abs_rounded_sub_le (1 / 1000))
    norm_num at near
    linarith [near.1]
  refine scoresLead_of (fun a b => ?_) (fun a => ?_) fun a inUnit => ?_
  · exact (ite_eq_or_eq (a.value ≤ b.value) b a).symm
  · refine decide_eq_true ?_
    show Binary32.rounded |Binary32.rounded (a.value - a.value)| <
      Binary32.rounded (mkRat 1 (10 ^ 3))
    rw [sub_self, Binary32.rounded_zero, abs_zero, Binary32.rounded_zero, Rat.mkRat_eq_div]
    norm_num at positive ⊢
    exact positive
  · refine if_pos ?_
    exact of_decide_eq_true (Bool.and_eq_true_iff.mp inUnit).1

/-- Scores in single precision compare. -/
theorem scoresCompare_binary32 : ScoresCompare Binary32 := by
  refine scoresCompare_of (fun a b c => ?_) fun a b c less more => ?_
  · have value_max : ∀ x y : Binary32, (F32.max x y).value = max x.value y.value :=
      fun x y => apply_ite Binary32.value _ y x
    have ext : ∀ x y : Binary32, x.value = y.value → x = y := by
      rintro ⟨x, _⟩ ⟨y, _⟩ rfl
      rfl
    refine ext _ _ ?_
    rw [value_max, value_max, value_max, value_max]
    exact max_right_comm _ _ _
  · exact decide_eq_true ((of_decide_eq_true less).trans (of_decide_eq_true more))

namespace McpHandler

open FactumStore

/-! ### Serving handlers -/

/-- A handler over a store that some calls reach, where every authority is a score. -/
structure Serving {F : Type} [F32 F] (handler : MemHandler F) : Prop where
  reachable : Reachable handler.store
  inUnit : handler.store.EveryStored fun node => F32.inUnit node.authority.value = true

/-- Calls of the store that offer only nodes of a kind keep the stored ones of it. -/
theorem everyStored_of_performs {F : Type} {kind : Node F → Prop}
    (retracts : ∀ node, kind node → kind node.retract) {before after : MemHandler F}
    (reachable : Reachable before.store) (stored : before.store.EveryStored kind)
    (performs : Performs kind before after) : after.store.EveryStored kind := by
  obtain ⟨calls, isAfter, ofKind⟩ := performs
  rw [isAfter]
  clear isAfter
  generalize before.store = store at *
  induction calls generalizing store with
  | nil => exact stored
  | cons call rest inductionHypothesis =>
    obtain ⟨offered, later⟩ := List.forall_mem_cons.mp ofKind
    refine inductionHypothesis later _ (reachable.step call) ?_
    exact (everyStored_after_iff retracts reachable.consistent.keyed stored call).mpr
      fun _ => offered

theorem Serving.after {D F : Type} [F32 F] (defaults : Parser.DefaultsInUnit F)
    {handler : MemHandler F} (serving : Serving handler) (out : WriteOutside D F)
    (call : HandlerCall D) : Serving (handler.after out call) := by
  refine ⟨reachable_after out serving.reachable call, ?_⟩
  refine everyStored_of_performs (fun _ inUnit => inUnit) serving.reachable serving.inUnit
    (performs_after out ?_ handler call fun _ _ _ _ _ => defaults.2)
  intro text nodes parsed node member _
  exact ((Parser.readsAs_of_parse out.host parsed node member).1.2 defaults).authority

/-! ### The write tools come to an answer -/

section Write

variable {D F : Type}

/-- A handler over a store that some calls reach. -/
def OverReachable (handler : MemHandler F) : Prop := Reachable handler.store

/-- A tried call of the store that does not stop. -/
theorem returns_attempt {α : Type} {method : StoreM F (InMemoryBackend F) α} (call : Call F)
    (isCall : ∀ store : MemStore F, final method store = store.after call)
    (answers : ∀ store, Reachable store → Answers (answer method store)) :
    Returns OverReachable (attempt method) fun _ => True := by
  intro handler reachable
  have isAfter := store_final_attempt method handler
  rw [isCall] at isAfter
  cases ran : method handler.store with
  | ok value later =>
    have tried := attempt_ok ran
    rw [final_ok tried] at isAfter
    refine ⟨_, _, tried, ?_, trivial⟩
    rw [OverReachable, isAfter]
    exact reachable.step call
  | error stop later =>
    have comes := answers _ reachable
    rw [answer_error ran] at comes
    rcases comes with ⟨_, impossible⟩ | ⟨error, isFail⟩
    · cases impossible
    · cases isFail
      have tried := attempt_fail ran
      rw [final_ok tried] at isAfter
      refine ⟨_, _, tried, ?_, trivial⟩
      rw [OverReachable, isAfter]
      exact reachable.step call

theorem returns_onStore {α : Type} {method : StoreM F (InMemoryBackend F) α}
    {found : MemStore F → α} (ran : ∀ store, method store = .ok (found store) store) :
    Returns OverReachable (onStore method) fun _ => True :=
  fun _ reachable => ⟨_, _, onStore_ok (ran _), reachable, trivial⟩

theorem returns_readText {α : Type} {parsed : Except (Stop ParseError) α}
    (answers : Answers parsed) :
    Returns OverReachable (readText parsed : HandlerM F (InMemoryBackend F) _) fun _ => True := by
  rcases answers with ⟨value, rfl⟩ | ⟨error, rfl⟩
  · exact .pure trivial
  · exact .pure trivial

/-- A change of the review queue. -/
theorem returns_queue {update : MemHandler F → MemHandler F}
    (same : ∀ handler, (update handler).store = handler.store) :
    Returns OverReachable (modify update : HandlerM F (InMemoryBackend F) PUnit) fun _ => True := by
  intro handler reachable
  refine ⟨_, _, rfl, ?_, trivial⟩
  rw [OverReachable, same]
  exact reachable

theorem returns_enqueueEvent (eventType : ReviewEventType) (priority : ReviewPriority)
    (nodeIds : List String) (detail : String) (now : DateTime) :
    Returns OverReachable
      (enqueueEvent eventType priority nodeIds detail now : HandlerM F (InMemoryBackend F) Unit)
      fun _ => True :=
  returns_queue fun _ => rfl

theorem answers_insert (store : MemStore F) (node : Node F) :
    Answers (answer (insert node) store) := by
  have ran := insert_run store node
  cases rejected : store.rejection node with
  | some reason =>
    rw [rejected] at ran
    exact .inr ⟨_, answer_error ran⟩
  | none =>
    rw [rejected] at ran
    dsimp only at ran
    split_ifs at ran
    · exact .inr ⟨_, answer_error ran⟩
    · exact .inl ⟨_, answer_ok ran⟩

theorem answers_insertBatch (store : MemStore F) (nodes : List (Node F)) :
    Answers (answer (insertBatch nodes) store) := by
  have ran := insertBatch_run store nodes
  cases rejected : nodes.findSome? store.rejection with
  | some reason =>
    rw [rejected] at ran
    exact .inr ⟨_, answer_error ran⟩
  | none =>
    rw [rejected] at ran
    dsimp only at ran
    cases duplicate : store.firstDuplicate nodes [] with
    | some id =>
      rw [duplicate] at ran
      exact .inr ⟨_, answer_error ran⟩
    | none =>
      rw [duplicate] at ran
      exact .inl ⟨_, answer_ok ran⟩

theorem answers_retractWithLimit {store : MemStore F} (reachable : Reachable store) (id : NodeId)
    (maxNodes : Nat) : Answers (answer (retractWithLimit id maxNodes) store) := by
  by_cases positive : 0 < maxNodes
  · cases stored : store.nodeAt id with
    | none => exact .inr ⟨_, answer_error (retractWithLimit_notFound stored positive)⟩
    | some node =>
      by_cases gone : node.status = .retracted
      · exact .inl ⟨_, answer_ok (retractWithLimit_retracted stored gone positive)⟩
      · obtain ⟨depth, ran⟩ :=
          retractWithLimit_run reachable.consistent.keyed stored gone positive
        exact .inl ⟨_, answer_ok ran⟩
  · obtain rfl : maxNodes = 0 := by omega
    exact .inl ⟨_, answer_ok (retractWithLimit_zero store id)⟩

theorem returns_insert (node : Node F) :
    Returns OverReachable (attempt (insert node) : HandlerM F (InMemoryBackend F) _)
      fun _ => True :=
  returns_attempt (.insert node) (fun store => final_insert store node)
    fun store _ => answers_insert store node

theorem returns_retract (id : NodeId) :
    Returns OverReachable (attempt (retract id) : HandlerM F (InMemoryBackend F) _)
      fun _ => True := by
  refine returns_attempt (.retractWithLimit id defaultMaxCascadeNodes)
    (fun store => final_retract store id) fun store reachable => ?_
  have whole : answer (retract id) store =
      (answer (retractWithLimit id defaultMaxCascadeNodes) store).map (·.retracted) :=
    answer_bind_pure _ _ _
  rw [whole]
  rcases answers_retractWithLimit reachable id defaultMaxCascadeNodes with
    ⟨result, isOk⟩ | ⟨error, fails⟩
  · rw [isOk]
    exact .inl ⟨_, rfl⟩
  · rw [fails]
    exact .inr ⟨_, rfl⟩

variable (out : WriteOutside D F) (req : JsonRpcRequest D)

/-- A tool that replies to its request, from every handler over a reachable store. -/
def Serves (tool : HandlerM F (InMemoryBackend F) (JsonRpcResponse D)) : Prop :=
  Returns OverReachable tool (Replies req)

variable {out}

theorem serves_replyWith (value : Json D) :
    Serves req (pure (replyWith out.toOutside req value) : HandlerM F (InMemoryBackend F) _) :=
  .pure (replies_success req _)

theorem serves_refuse (message : String) :
    Serves req (pure (refuse req message) : HandlerM F (InMemoryBackend F) _) :=
  .pure (replies_failure req _)

theorem serves_refuseStore (error : StoreError) :
    Serves req (pure (refuseStore req error) : HandlerM F (InMemoryBackend F) _) :=
  .pure (replies_failure req _)

theorem returns_reportCut (nodeId : String) (result : RetractResult) :
    Returns OverReachable (reportCut out nodeId result : HandlerM F (InMemoryBackend F) Unit)
      fun _ => True := by
  refine .ite (fun _ => returns_enqueueEvent _ _ _ _ _) fun _ => .pure ?_
  trivial

theorem serves_toolRetract (args : Json D) : Serves req (toolRetract out req args) := by
  unfold toolRetract
  cases out.retractParams args with
  | error message => exact serves_refuse req _
  | ok params =>
    refine (returns_attempt (.retractWithLimit _ _) (fun store => final_retractWithLimit store _ _)
      fun store reachable => answers_retractWithLimit reachable _ _).bind fun retracted _ => ?_
    split
    · exact (returns_reportCut _ _).bind fun _ _ => serves_replyWith req _
    · exact serves_refuseStore req _

theorem returns_retractEach : ∀ nodeIds retractedNodes errors : List String,
    Returns OverReachable
      (retractEach nodeIds retractedNodes errors : HandlerM F (InMemoryBackend F) _) fun _ => True
  | [], _, _ => .pure trivial
  | nodeId :: rest, _, _ => by
    refine (returns_retract _).bind fun retracted _ => ?_
    split
    · exact returns_retractEach rest _ _
    · exact returns_retractEach rest _ _

theorem returns_nodeDetails : ∀ nodeIds : List String,
    Returns OverReachable (nodeDetails out nodeIds : HandlerM F (InMemoryBackend F) _)
      fun _ => True
  | [] => .pure trivial
  | nodeId :: rest => by
    refine (returns_onStore fun store => getById_run store _).bind fun found _ => ?_
    refine (returns_nodeDetails rest).bind fun details _ => ?_
    refine .pure ?_
    trivial

theorem returns_decideEvent (decision : ReviewQueue → UInt64 → Except String ReviewQueue)
    (eventId : UInt64) :
    Returns OverReachable (decideEvent decision eventId : HandlerM F (InMemoryBackend F) _)
      fun _ => True := by
  refine .get_bind fun handler _ => ?_
  split
  · exact .pure trivial
  · exact fun _ reachable => ⟨_, _, rfl, reachable, trivial⟩

theorem serves_toolReview (args : Json D) : Serves req (toolReview out req args) := by
  unfold toolReview
  split
  · exact .get_bind fun _ _ => serves_replyWith req _
  · exact .get_bind fun _ _ => serves_replyWith req _
  · unfold reviewApprove
    split
    · exact serves_refuse req _
    · refine (returns_decideEvent _ _).bind fun decided _ => ?_
      split
      · exact serves_replyWith req _
      · exact serves_refuse req _
  · unfold reviewReject
    split
    · exact serves_refuse req _
    · refine (returns_decideEvent _ _).bind fun decided _ => ?_
      split
      · exact serves_refuse req _
      · refine .get_bind fun handler _ => ?_
        split
        · exact serves_refuse req _
        · exact (returns_retractEach _ _ _).bind fun _ _ => serves_replyWith req _
  · unfold reviewDetail
    split
    · exact serves_refuse req _
    · refine .get_bind fun handler _ => ?_
      split
      · exact (returns_nodeDetails _).bind fun _ _ => serves_replyWith req _
      · exact serves_refuse req _
  · exact serves_refuse req _

variable [F32 F]

theorem serves_toolInsert (tells : out.host.TellsDepth) (args : Json D) :
    Serves req (toolInsert out req args) := by
  unfold toolInsert
  cases out.insertParams args with
  | error message => exact serves_refuse req _
  | ok params =>
    refine (returns_readText (Parser.answers_parse tells _)).bind fun read _ => ?_
    split
    · exact serves_refuse req _
    · exact serves_refuse req _
    · split
      · refine (returns_insert _).bind fun inserted _ => ?_
        split
        · exact serves_replyWith req _
        · exact serves_refuseStore req _
      · refine (returns_insert _).bind fun inserted _ => ?_
        split
        · exact serves_replyWith req _
        · exact serves_refuseStore req _

theorem returns_parseBatch (tells : out.host.TellsDepth) : ∀ (texts : List String) (i : Nat)
    (allNodes : List (Node F)),
    Returns OverReachable (parseBatch out i texts allNodes : HandlerM F (InMemoryBackend F) _)
      fun _ => True
  | [], _, _ => .pure trivial
  | text :: rest, i, allNodes => by
    refine (returns_readText (Parser.answers_parse tells _)).bind fun parsed _ => ?_
    split
    · exact returns_parseBatch tells rest _ _
    · exact .pure trivial

theorem serves_toolInsertBatch (tells : out.host.TellsDepth) (args : Json D) :
    Serves req (toolInsertBatch out req args) := by
  unfold toolInsertBatch
  cases out.insertBatchParams args with
  | error message => exact serves_refuse req _
  | ok params =>
    refine (returns_parseBatch tells _ _ _).bind fun read _ => ?_
    split
    · exact serves_refuse req _
    · refine .ite (fun _ => serves_refuse req _) fun _ => ?_
      refine (returns_attempt (.insertBatch _) (fun store => final_insertBatch store _)
        fun store _ => answers_insertBatch store _).bind fun inserted _ => ?_
      split
      · exact serves_replyWith req _
      · exact serves_refuseStore req _

theorem serves_toolUpsert (tells : out.host.TellsDepth) (args : Json D) :
    Serves req (toolUpsert out req args) := by
  unfold toolUpsert
  cases out.upsertParams args with
  | error message => exact serves_refuse req _
  | ok params =>
    refine (returns_readText (Parser.answers_parse tells _)).bind fun read _ => ?_
    split
    · exact serves_refuse req _
    · exact serves_refuse req _
    · refine (returns_onStore fun store => lookupIndex_run store _ _).bind fun found _ => ?_
      split
      · refine (returns_insert _).bind fun inserted _ => ?_
        split
        · exact serves_replyWith req _
        · exact serves_refuseStore req _
      · refine (returns_insert _).bind fun inserted _ => ?_
        split
        · refine (returns_retract _).bind fun retracted _ => ?_
          split
          · exact serves_replyWith req _
          · exact serves_replyWith req _
        · exact serves_refuseStore req _
      · refine (returns_enqueueEvent _ _ _ _ _).bind fun _ _ => ?_
        exact serves_replyWith req _

theorem returns_checkBand (params : FactumAssertParams F) (nodeId : String) :
    Returns OverReachable (checkBand out params nodeId : HandlerM F (InMemoryBackend F) Unit)
      fun _ => True := by
  unfold checkBand
  split
  · exact .pure trivial
  · exact returns_queue fun _ => rfl

theorem serves_toolAssert (tells : out.host.TellsDepth) (args : Json D) :
    Serves req (toolAssert out req args) := by
  unfold toolAssert
  cases out.assertParams args with
  | error message => exact serves_refuse req _
  | ok params =>
    refine (returns_readText (Parser.answers_parsePredicate tells _)).bind fun parsed _ => ?_
    split
    · exact serves_refuse req _
    · refine (returns_checkBand _ _).bind fun _ _ => ?_
      refine (returns_insert _).bind fun inserted _ => ?_
      split
      · exact serves_replyWith req _
      · refine (returns_onStore fun store => getById_run store _).bind fun existing _ => ?_
        refine .pure ?_
        unfold assertExisting
        split_ifs <;> exact replies_success req _
      · exact serves_refuseStore req _

end Write

/-! ### The read tools come to an answer -/

section Read

variable {D F : Type} [F32 F]

theorem inUnit_of_matches {store : MemStore F}
    (inUnit : store.EveryStored fun node => F32.inUnit node.authority.value = true) (q : Query)
    (options : QueryOptions F) :
    ∀ result ∈ ((store.candidateScan q).filterMap store.activeAt).filterMap (matchOf q options),
      F32.inUnit result.node.authority.value = true := by
  intro result member
  obtain ⟨node, candidate, isMatch⟩ := List.mem_filterMap.mp member
  obtain ⟨id, _, isActive⟩ := List.mem_filterMap.mp candidate
  unfold matchOf at isMatch
  split_ifs at isMatch
  obtain ⟨bindings, _, rfl⟩ := Option.map_eq_some_iff.mp isMatch
  exact inUnit id node ((activeAt_eq_some store id node).mp isActive).1

/-- A query is answered where every stored authority is a score. -/
theorem query_answered (leads : ScoresLead F) {store : MemStore F}
    (inUnit : store.EveryStored fun node => F32.inUnit node.authority.value = true)
    (hasher : Hash.Order String) (host : Host F) (q : Query) (options : QueryOptions F) :
    ∃ found, query hasher host q options store = .ok found store := by
  obtain ⟨answer, isAnswer⟩ := arbitrate_isSome leads hasher host
    (inUnit_of_matches inUnit q options) options.policy q.pattern
  rw [query_run (queryMatches_run store q options), isAnswer]
  exact ⟨_, rfl⟩

omit [F32 F] in
/-- No more nodes are active than are stored. -/
theorem length_active_le (store : MemStore F) (keeps keeps' : Node F → Bool) :
    ((store.backend.nodes.values.filter keeps).filter keeps').length ≤ store.backend.nodes.size :=
  calc ((store.backend.nodes.values.filter keeps).filter keeps').length
      ≤ store.backend.nodes.values.length :=
        (List.length_filter_le _ _).trans (List.length_filter_le _ _)
    _ ≤ store.backend.nodes.keys.length := List.length_filterMap_le _ _
    _ = store.backend.nodes.size := Hash.Map.length_keys _

variable {out : Outside D F} (preferredForm : PreferredForm) (req : JsonRpcRequest D)

/-- A call that replies to its request and leaves the store alone. -/
def RepliesAt (store : MemStore F)
    (call : StoreM F (InMemoryBackend F) (JsonRpcResponse D)) : Prop :=
  ∃ response, call store = .ok response store ∧ Replies req response

omit [F32 F] in
theorem repliesAt_pure {store : MemStore F} {response : JsonRpcResponse D}
    (replies : Replies req response) : RepliesAt req store (pure response) := ⟨_, rfl, replies⟩

omit [F32 F] in
theorem repliesAt_bind {α : Type} {store : MemStore F} {first : StoreM F (InMemoryBackend F) α}
    {value : α} (ran : first store = .ok value store)
    {next : α → StoreM F (InMemoryBackend F) (JsonRpcResponse D)}
    (rest : RepliesAt req store (next value)) : RepliesAt req store (first >>= next) := by
  obtain ⟨response, ranRest, replies⟩ := rest
  exact ⟨response, (bind_ok ran).trans ranRest, replies⟩

theorem repliesAt_toolQuery (leads : ScoresLead F) (tells : out.host.TellsDepth)
    {store : MemStore F}
    (inUnit : store.EveryStored fun node => F32.inUnit node.authority.value = true)
    (args : Json D) :
    RepliesAt req store (toolQuery out preferredForm req args) := by
  unfold toolQuery
  cases out.queryParams args with
  | error message => exact repliesAt_pure req (replies_failure req _)
  | ok params =>
    dsimp only
    rcases Parser.answers_parsePredicate tells params.query with ⟨pattern, read⟩ | ⟨error, fails⟩
    · rw [read]
      obtain ⟨found, ran⟩ := query_answered leads inUnit out.hasher out.host ⟨pattern, none⟩
        (optionsOf out params)
      exact repliesAt_bind req ran ⟨_, rfl, replies_success req _⟩
    · rw [fails]
      exact repliesAt_pure req (replies_failure req _)

omit [F32 F] in
theorem repliesAt_toolSearch (store : MemStore F) (args : Json D) :
    RepliesAt req store (toolSearch out req args) := by
  have listing : (allActive : StoreM F (InMemoryBackend F) _) store =
      .ok (store.backend.nodes.values.filter fun node => node.status == .active) store := rfl
  unfold toolSearch
  cases out.searchParams args with
  | error message => exact repliesAt_pure req (replies_failure req _)
  | ok params =>
    refine repliesAt_bind req listing ?_
    dsimp only
    split
    · cases params.keyword with
      | none => exact repliesAt_pure req (replies_failure req _)
      | some keyword =>
        dsimp only
        split_ifs
        · exact repliesAt_pure req (replies_failure req _)
        · exact repliesAt_pure req (replies_success req _)
    · exact repliesAt_pure req (replies_success req _)
    · refine repliesAt_bind req (len_run store) ?_
      rw [if_neg (Nat.not_lt.mpr (length_active_le store _ _))]
      exact repliesAt_pure req (replies_success req _)
    · exact repliesAt_pure req (replies_failure req _)

omit [F32 F] in
theorem repliesAt_handleReadResource (store : MemStore F) :
    RepliesAt req store (handleReadResource out req) := by
  unfold handleReadResource
  cases req.params with
  | none => exact repliesAt_pure req (replies_failure req _)
  | some params =>
    dsimp only
    cases parseNodeResourceUri (((params.get? "uri").bind Json.asStr?).getD "") with
    | none => exact repliesAt_pure req (replies_failure req _)
    | some id =>
      refine repliesAt_bind req (readable_run store ⟨id⟩) ?_
      cases (store.grantedAt publicMask ⟨id⟩).filter (·.status == .active) with
      | none => exact repliesAt_pure req (replies_failure req _)
      | some node => exact repliesAt_pure req (replies_success req _)

theorem repliesAt_serve (leads : ScoresLead F) (tells : out.host.TellsDepth)
    {store : MemStore F}
    (inUnit : store.EveryStored fun node => F32.inUnit node.authority.value = true)
    (call : ReadCall D) :
    RepliesAt req store (serve out preferredForm req call) := by
  cases call with
  | query args => exact repliesAt_toolQuery preferredForm req leads tells inUnit args
  | lookup args =>
    show RepliesAt req store (toolLookup out preferredForm req args)
    unfold toolLookup
    cases out.lookupParams args with
    | error message => exact repliesAt_pure req (replies_failure req _)
    | ok params =>
      exact repliesAt_bind req (lookupIndex_run store .byEntity _) ⟨_, rfl, replies_success req _⟩
  | search args => exact repliesAt_toolSearch req store args
  | listResources => exact ⟨_, rfl, replies_success req _⟩
  | readResource => exact repliesAt_handleReadResource req store

end Read

/-- A serving handler answers every call, with a response to its request. -/
theorem handle_answered {D F : Type} [F32 F] (defaults : Parser.DefaultsInUnit F)
    (leads : ScoresLead F) (out : WriteOutside D F) (tells : out.host.TellsDepth)
    {handler : MemHandler F} (serving : Serving handler) (call : HandlerCall D) :
    ∃ response after, handle out call handler = .ok response after ∧ Serving after ∧
      Replies call.req response := by
  have answered : ∃ response after, handle out call handler = .ok response after ∧
      Replies call.req response := by
    obtain ⟨now, preferredForm, req, tool⟩ := call
    have tells : ({ out with now := now } : WriteOutside D F).host.TellsDepth := tells
    have writes : ∀ {tool : HandlerM F (InMemoryBackend F) (JsonRpcResponse D)}, Serves req tool →
        ∃ response after, tool handler = .ok response after ∧ Replies req response := by
      intro tool serves
      obtain ⟨response, after, ran, -, replies⟩ := serves handler serving.reachable
      exact ⟨response, after, ran, replies⟩
    cases tool with
    | read call =>
      obtain ⟨response, ran, replies⟩ :=
        repliesAt_serve preferredForm req leads tells serving.inUnit call
      exact ⟨response, _, onStore_ok ran, replies⟩
    | insert args => exact writes (serves_toolInsert req tells args)
    | insertBatch args =>
      exact writes (serves_toolInsertBatch req tells args)
    | upsert args => exact writes (serves_toolUpsert req tells args)
    | assert args => exact writes (serves_toolAssert req tells args)
    | retract args => exact writes (serves_toolRetract req args)
    | review args => exact writes (serves_toolReview req args)
  obtain ⟨response, after, ran, replies⟩ := answered
  have isAfter : handler.after out call = after := final_ok ran
  exact ⟨response, after, ran, isAfter ▸ serving.after defaults out call, replies⟩

end McpHandler

/-! ### Sessions -/

namespace Server

open FactumStore McpHandler

/-- A server over an in-memory store. -/
abbrev MemServer (F : Type) := Server F (InMemoryBackend F)

section Sessions

variable {D F : Type} [F32 F] (out : ServerOutside D F)

/-- A server whose handler serves. -/
def Ready (server : MemServer F) : Prop := Serving server.handler

/-- The messages of a session: those of the lines before the first that cannot be read. -/
def received : List Arrival → List (Message D)
  | ⟨_, some line⟩ :: rest => readLine out line :: received rest
  | _ => []

/-- A message that asks for an answer. -/
def Message.asks : Message D → Bool
  | .nothing => false
  | _ => true

/-- What is written for a message that asks for an answer: a refusal under a null id, or a
response to the request. -/
inductive Answered : Message D → String → Prop
  | refused (code : Int) (message : String) :
    Answered (.invalid code message) ((refusalJson code message).render out.doubleText)
  | replied {req : RpcRequest D} {response : JsonRpcResponse D}
    (replies : Replies req.toJsonRpcRequest response) :
    Answered (.request req) (response.toJson.render out.doubleText)

variable {out} (defaults : Parser.DefaultsInUnit F) (leads : ScoresLead F)
  (tells : out.host.TellsDepth)

include defaults leads tells

/-- A ready server answers every request. -/
theorem handle_ready (now : DateTime) (req : RpcRequest D) {server : MemServer F}
    (ready : Ready server) :
    ∃ response after, handle out now req server = .ok response after ∧ Ready after ∧
      Replies req.toJsonRpcRequest response := by
  cases isCall : callOf req with
  | none =>
    obtain ⟨response, replies, ran⟩ := handle_of_no_call out now req isCall server
    exact ⟨response, _, ran, ready, replies⟩
  | some tool =>
    obtain ⟨response, after, ran, serving, replies⟩ := handle_answered defaults leads
      out.toWriteOutside tells ready ⟨now, server.preferredForm, req.toJsonRpcRequest, tool⟩
    refine ⟨response, { server with handler := after }, ?_, serving, replies⟩
    rw [(handle_of_call out now req isCall).1, onHandler, ran]

/-- A ready server serves every line. -/
theorem serveLine_ready (now : DateTime) (line : String) {server : MemServer F}
    (ready : Ready server) :
    ∃ written after, serveLine out now line server = .ok written after ∧ Ready after ∧
      List.Forall₂ (Answered out) ([readLine out line].filter Message.asks) written.toList := by
  unfold serveLine
  cases read : readLine out line with
  | nothing => exact ⟨_, _, rfl, ready, .nil⟩
  | invalid code message => exact ⟨_, _, rfl, ready, .cons (.refused code message) .nil⟩
  | request req =>
    obtain ⟨response, after, ran, ready', replies⟩ :=
      handle_ready defaults leads tells now req ready
    exact ⟨_, after, bind_ok ran, ready', .cons (.replied replies) .nil⟩

/-- A ready server serves every session. -/
theorem serveLines_ready (arrivals : List Arrival) : ∀ {server : MemServer F}, Ready server →
    ∃ written after, serveLines out arrivals server = .ok written after ∧ Ready after ∧
      List.Forall₂ (Answered out) ((received out arrivals).filter Message.asks) written := by
  induction arrivals with
  | nil => exact fun ready => ⟨_, _, rfl, ready, .nil⟩
  | cons arrival rest inductionHypothesis =>
    obtain ⟨now, line⟩ := arrival
    intro server ready
    cases line with
    | none => exact ⟨_, _, rfl, ready, .nil⟩
    | some line =>
      obtain ⟨written, between, ran, ready', answered⟩ :=
        serveLine_ready defaults leads tells now line ready
      obtain ⟨later, after, ranRest, ready'', answeredRest⟩ := inductionHypothesis ready'
      refine ⟨written.toList ++ later, after, (bind_ok ran).trans (bind_ok ranRest), ready'', ?_⟩
      rw [received, ← List.singleton_append, List.filter_append]
      exact List.rel_append answered answeredRest

omit defaults leads tells in
theorem ready_new (store : MemStore F) (reachable : Reachable store)
    (isEmpty : ∀ id, store.nodeAt id = none) : Ready (Server.new store) where
  reachable := reachable
  inUnit id node stored := by
    have stored : store.nodeAt id = some node := stored
    rw [isEmpty] at stored
    cases stored

/-- From an empty store every session comes to its end, and one line is written for each line
that asks for an answer, in their order: the refusal of a line that is no request, under a null
id, or a response under the id of the request, with a result or an error. -/
theorem session_answered {store : MemStore F} (reachable : Reachable store)
    (isEmpty : ∀ id, store.nodeAt id = none) (arrivals : List Arrival) :
    ∃ written after, serveLines out arrivals (Server.new store) = .ok written after ∧
      List.Forall₂ (Answered out) ((received out arrivals).filter Message.asks) written := by
  obtain ⟨written, after, ran, -, answered⟩ :=
    serveLines_ready defaults leads tells arrivals (ready_new store reachable isEmpty)
  exact ⟨written, after, ran, answered⟩

end Sessions

/-! ### Sessions as runs of the handler -/

section Refinement

variable {D F B : Type} [F32 F] [StorageBackend F B] {out : ServerOutside D F}

/-- Whatever the server was, a session that comes to its end leaves the handler as the run of
its calls does, in the form of its last handshake, and the next line that calls a tool is
answered as the call is after that run. -/
theorem session_runs {server after : Server F B} {arrivals : List Arrival} {written : List String}
    (ran : serveLines out arrivals server = .ok written after) :
    after.handler = server.handler.run out.toWriteOutside
        (callsOf out server.preferredForm arrivals) ∧
      ∀ now line req call, readLine out line = .request req →
        handlerCall now (formOf out server.preferredForm arrivals) req = some call →
        answer (serveLine out now line) after =
          ((server.handler.run out.toWriteOutside
              (callsOf out server.preferredForm arrivals)).response out.toWriteOutside call).map
            fun response => some (response.toJson.render out.doubleText) := by
  obtain ⟨handler, form⟩ := serveLines_runs ran
  refine ⟨handler, fun now line req call read isCall => ?_⟩
  rw [← form] at isCall
  rw [← handler, ← answer_handle isCall]
  unfold serveLine
  rw [read]
  exact answer_bind_pure _ _ _

end Refinement

/-! ### A session that stores a place -/

/-- The text of a handshake. -/
def handshakeLine : String := "\x7b\"jsonrpc\":\"2.0\",\"id\":1,\"method\":\"initialize\"\x7d"

/-- The text of a call that inserts a place. -/
def insertLine : String :=
  "\x7b\"jsonrpc\":\"2.0\",\"id\":2,\"method\":\"tools/call\",\"params\":\x7b\"name\":" ++
    "\"factum_insert\",\"arguments\":\x7b\"node\":" ++
    "\"(node n2 :pred (located-in @A @C))\"\x7d\x7d\x7d"

/-- The text of a call that retracts the place. -/
def retractLine : String :=
  "\x7b\"jsonrpc\":\"2.0\",\"id\":3,\"method\":\"tools/call\",\"params\":\x7b\"name\":" ++
    "\"factum_retract\",\"arguments\":\x7b\"node_id\":\"n2\"\x7d\x7d\x7d"

/-- The parameters of a call of a tool. -/
def callParams (name : String) (arguments : Json Unit) : Json Unit :=
  .obj [("name", .str name), ("arguments", arguments)]

/-- The arguments of the insertion. -/
def insertArgs : Json Unit := .obj [("node", .str newPlaceText)]

/-- The arguments of the retraction. -/
def retractArgs : Json Unit := .obj [("node_id", .str "n2")]

/-- A request with a number, a method and parameters. -/
def requestJson (id : Int) (method : String) (params : List (String × Json Unit)) : Json Unit :=
  .obj ([("jsonrpc", .str "2.0"), ("id", .int id), ("method", .str method)] ++ params)

/-- Libraries that read these lines and no others. -/
def sampleServer : ServerOutside Unit ℚ where
  toWriteOutside := sampleWrites
  jsonFromStr := fun text =>
    if text = handshakeLine then .ok (requestJson 1 "initialize" [])
    else if text = insertLine then
      .ok (requestJson 2 "tools/call" [("params", callParams "factum_insert" insertArgs)])
    else if text = retractLine then
      .ok (requestJson 3 "tools/call" [("params", callParams "factum_retract" retractArgs)])
    else .error "expected value at line 1 column 1"

theorem sampleServer_tellsDepth : sampleServer.host.TellsDepth where
  f32_text _ _ fails := by
    cases fails
    decide
  date_text _ _ fails := by
    cases fails
    decide
  datetime_text _ _ fails := by
    cases fails
    decide

/-- The first moment of the epoch. -/
def epoch : DateTime := ⟨0, 0, DateTime.zero_inRange⟩

/-- A word, a blank line, a handshake and an insertion. -/
def sampleArrivals : List Arrival :=
  [⟨epoch, some "ping"⟩, ⟨epoch, some " "⟩, ⟨epoch, some handshakeLine⟩, ⟨epoch, some insertLine⟩]

theorem session_answered_sample :
    ∃ written after, serveLines sampleServer sampleArrivals (Server.new blank) =
        .ok written after ∧
      List.Forall₂ (Answered sampleServer)
        ((received sampleServer sampleArrivals).filter Message.asks) written :=
  session_answered defaultsInUnit_rat scoresLead_rat sampleServer_tellsDepth (.empty _ _ _)
    isEmpty_blankHandler sampleArrivals

/-- The request of the handshake. -/
def handshakeRequest : RpcRequest Unit := ⟨⟨.int 1, none⟩, "2.0", "initialize"⟩

/-- The request of the insertion. -/
def insertRequest : RpcRequest Unit :=
  ⟨⟨.int 2, some (callParams "factum_insert" insertArgs)⟩, "2.0", "tools/call"⟩

/-- The request of the retraction. -/
def retractRequest : RpcRequest Unit :=
  ⟨⟨.int 3, some (callParams "factum_retract" retractArgs)⟩, "2.0", "tools/call"⟩

/-- The call that inserts the place, in the form of the handshake. -/
def insertion : HandlerCall Unit :=
  ⟨epoch, .canonical, insertRequest.toJsonRpcRequest, .insert insertArgs⟩

/-- The call that retracts the place. -/
def retraction : HandlerCall Unit :=
  ⟨epoch, .canonical, retractRequest.toJsonRpcRequest, .retract retractArgs⟩

/-- A line without blanks around it is read as its value. -/
theorem readLine_of_json {line : String}
    (trimmed : trim line.toList = line.toList ∧ line.toList ≠ []) (value : Json Unit)
    (json : sampleServer.jsonFromStr line = .ok value) :
    readLine sampleServer line = messageOf value := by
  unfold readLine
  dsimp only
  rw [trimmed.1, String.ofList_toList, json, if_neg (by simpa using trimmed.2)]

theorem readLine_handshakeLine :
    readLine sampleServer handshakeLine = .request handshakeRequest :=
  readLine_of_json (by decide +kernel) _ (if_pos rfl)

theorem readLine_insertLine : readLine sampleServer insertLine = .request insertRequest := by
  have other : insertLine ≠ handshakeLine := by decide +kernel
  refine readLine_of_json (by decide +kernel) (requestJson 2 "tools/call"
    [("params", callParams "factum_insert" insertArgs)]) ?_
  unfold sampleServer
  dsimp only
  rw [if_neg other, if_pos rfl]

theorem readLine_retractLine : readLine sampleServer retractLine = .request retractRequest := by
  have other : retractLine ≠ handshakeLine ∧ retractLine ≠ insertLine := by decide +kernel
  refine readLine_of_json (by decide +kernel) (requestJson 3 "tools/call"
    [("params", callParams "factum_retract" retractArgs)]) ?_
  unfold sampleServer
  dsimp only
  rw [if_neg other.1, if_neg other.2, if_pos rfl]

theorem callsOf_sampleArrivals :
    callsOf sampleServer .compact sampleArrivals = [insertion] ∧
      formOf sampleServer .compact sampleArrivals = .canonical := by
  have word : readLine sampleServer "ping" =
      .invalid (-32700) "Parse error" := rfl
  have blankLine : readLine sampleServer " " = .nothing := rfl
  simp only [sampleArrivals, callsOf, formOf, word, blankLine, readLine_handshakeLine,
    readLine_insertLine]
  exact ⟨rfl, rfl⟩

/-- After the session the handler is the one that the insertion leads to, and the retraction is
answered as it is there. -/
theorem session_runs_sample :
    ∃ written after, serveLines sampleServer sampleArrivals (Server.new blank) =
        .ok written after ∧
      after.handler = blankHandler.run sampleServer.toWriteOutside [insertion] ∧
      answer (serveLine sampleServer epoch retractLine) after =
        ((blankHandler.run sampleServer.toWriteOutside [insertion]).response
          sampleServer.toWriteOutside retraction).map fun response =>
            some (response.toJson.render sampleServer.doubleText) := by
  obtain ⟨written, after, ran, -⟩ := serveLines_ready defaultsInUnit_rat scoresLead_rat
    sampleServer_tellsDepth sampleArrivals (ready_new blank (.empty _ _ _) isEmpty_blankHandler)
  obtain ⟨handler, answers⟩ := session_runs ran
  have form : (Server.new blank).preferredForm = .compact := rfl
  rw [form, callsOf_sampleArrivals.1] at handler answers
  rw [callsOf_sampleArrivals.2] at answers
  exact ⟨written, after, ran, handler,
    answers epoch retractLine retractRequest retraction readLine_retractLine rfl⟩

end Server

end Factum
